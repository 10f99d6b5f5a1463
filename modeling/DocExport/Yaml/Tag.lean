import DocExport.Text.Hexadecimal
import DocExport.Yaml.Cursor

/-! Tags in front of nodes. A tag is a URI, whole between angle brackets or shortened by a handle
that stands for the start of it. -/
namespace DocExport.Yaml

/-- The characters of names: of anchors, handles and directives. -/
def isNameChar (c : Char) : Bool := c.isAlphanum || c = '_' || c = '-'

/-- The characters of a URI other than the percent sign. Commas and square brackets are characters
of a whole URI only, since a shortened one may stand in a flow collection. -/
def isUriChar (whole : Bool) (c : Char) : Bool :=
  isNameChar c || whole && [',', '[', ']'].contains c ||
    [';', '/', '?', ':', '@', '&', '=', '+', '$', '.', '!', '~', '*', '\x27', '(', ')'].contains c

/-- How many bytes follow the first byte of a character. -/
def followingBytes? (lead : Nat) : Option Nat :=
  if lead < 0x80 then some 0
  else if lead < 0xC0 then none
  else if lead < 0xE0 then some 1
  else if lead < 0xF0 then some 2
  else if lead < 0xF8 then some 3
  else none

/-- What follows the longest URI at the start of a text, of whose last character `due` bytes are
still to come. A percent sign escapes a byte, and a character is escaped byte by byte. -/
def afterUri? (whole : Bool) : (due : Nat) → List Char → Option (List Char)
  | due, '%' :: x :: y :: rest =>
    match Text.hexNumber? [x, y], due with
    | some byte, 0 => (followingBytes? byte).bind fun due => afterUri? whole due rest
    | some byte, due + 1 => if byte / 64 = 2 then afterUri? whole due rest else none
    | none, _ => none
  | 0, [] => some []
  | 0, c :: rest =>
    if c = '%' then none
    else if isUriChar whole c then afterUri? whole 0 rest
    else some (c :: rest)
  | _ + 1, _ => none

namespace Cursor

/-- Past a URI of at least one character. -/
def skipUri? (c : Cursor) (whole : Bool) : Option Cursor := do
  let rest ← afterUri? whole 0 c.rest
  let count := c.rest.length - rest.length
  if count = 0 then none else return c.skip count

/-- Past a name between two exclamation marks. -/
def skipNamedHandle? (c : Cursor) : Option Cursor :=
  let name := (c.skip 1).skipWhile isNameChar
  if c.head? = some '!' && name.head? = some '!' then some (name.skip 1) else none

/-- The handle of a tag, empty if it has none, and the cursor after the tag. The exclamation mark at
the start of a tag without a name is its handle. -/
def tag? (c : Cursor) : Option (String × Cursor) :=
  if c.rest.take 2 = ['!', '<'] then do
    let after ← (c.skip 2).skipUri? true
    if after.head? = some '>' then return ("", after.skip 1)
    none
  else match c.skipNamedHandle? with
    | some suffix => (suffix.skipUri? false).map fun after => (c.textTo suffix, after)
    | none => (c.skipUri? false).map fun after => ("!", after)

end Cursor

end DocExport.Yaml
