import DocExport.Failure
import DocExport.Text.Alphabetic
import DocExport.Text.Numeral

/-! Documents as XML elements: members of objects are child elements, items of arrays repeat the
element of the array's key, scalars are text. -/
namespace DocExport

/-- An element with no content at all, with text, or with child elements. -/
inductive Element where
  | empty (name : String)
  | text (name : String) (content : String)
  | parent (name : String) (children : List Element)
  deriving Repr

namespace Element

/-- Whether a key may be a name: a letter or underscore, then letters, numerals, underscores,
hyphens and points. Names that start with xml are reserved, and colons are left out. -/
def isName (name : String) : Bool :=
  let isReserved := (name.toList.take 3).map Char.toLower = ['x', 'm', 'l']
  match name.toList with
  | [] => false
  | first :: rest =>
    !isReserved && (Text.isAlphabetic first || first = '_') &&
      rest.all fun c => Text.isAlphabetic c || Text.isNumeral c || c = '_' || c = '-' || c = '.'

mutual

/-- The elements that a document makes under a name. -/
def ofDocument (name : String) : Document → Except FormatFault (List Element)
  | .scalar .null => .ok [.empty name]
  | .scalar value => .ok [.text name value.text]
  | .array items => ofItems name items
  | .object members => do return [.parent name (← ofMembers members)]

def ofItems (name : String) : List Document → Except FormatFault (List Element)
  | [] => .ok []
  | item :: items => do return (← ofDocument name item) ++ (← ofItems name items)

/-- Keys are checked before what is below them. -/
def ofMembers : List (String × Document) → Except FormatFault (List Element)
  | [] => .ok []
  | (key, value) :: members =>
    if isName key then do return (← ofDocument key value) ++ (← ofMembers members)
    else .error (.elementName key)

end

/-- A character of text or its entity. -/
def escapeChar (c : Char) : List Char :=
  if c = '&' then "&amp;".toList
  else if c = '<' then "&lt;".toList
  else if c = '>' then "&gt;".toList
  else if c = '"' then "&quot;".toList
  else if c = '\x27' then "&apos;".toList
  else [c]

def startTag (name : String) : List Char := '<' :: name.toList ++ ['>']

def endTag (name : String) : List Char := '<' :: '/' :: name.toList ++ ['>']

mutual

def chars : Element → List Char
  | .empty name => '<' :: name.toList ++ ['/', '>']
  | .text name content => startTag name ++ content.toList.flatMap escapeChar ++ endTag name
  | .parent name children => startTag name ++ forestChars children ++ endTag name

def forestChars : List Element → List Char
  | [] => []
  | element :: rest => element.chars ++ forestChars rest

end

/-- The root element: one child or more for each document. -/
def ofDocuments (docs : List Document) : Except FormatFault Element :=
  (ofItems "doc" docs).map (.parent "docs")

/-- The body for a collection of documents. -/
def render (docs : List Document) : Except FormatFault String :=
  (ofDocuments docs).map fun root => String.ofList root.chars

end Element

end DocExport
