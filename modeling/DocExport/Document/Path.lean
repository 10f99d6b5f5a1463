/-! Dotted paths. A path is the list of its segments; a dot at the end adds none, but is kept to
show the path as it was written. Whether a segment is a key or an index is decided by the node it
is applied to. -/
namespace DocExport

structure Path where
  segments : List String
  trailingDot : Bool
  deriving DecidableEq, Repr

namespace Path

def join (segments : List String) : String := ".".intercalate segments

/-- The pieces of a text between its dots, less an empty last one if it is not the only one. -/
def ofText (text : String) : Path :=
  let pieces := (text.toList.splitOn '.').map String.ofList
  if 1 < pieces.length ∧ pieces.getLast? = some "" then ⟨pieces.dropLast, true⟩
  else ⟨pieces, false⟩

/-- The path as it was written. -/
def text (p : Path) : String :=
  if p.trailingDot then join p.segments ++ "." else join p.segments

/-- The first segment of a path text and the text after its dot, if there is any. -/
def cut (text : String) : String × Option String :=
  let rest := (text.toList.dropWhile (· ≠ '.')).drop 1
  (String.ofList (text.toList.takeWhile (· ≠ '.')),
    if rest.isEmpty then none else some (String.ofList rest))

/-- Whether a segment is a plain decimal index. Leading zeros are allowed. -/
def isIndex (segment : String) : Bool :=
  !segment.toList.isEmpty && segment.toList.all Char.isDigit

def indexValue (segment : String) : Nat := Nat.ofDigitChars 10 segment.toList 0

/-- Whether a segment is an index behind a minus sign. -/
def isNegativeIndex (segment : String) : Bool :=
  match segment.toList with
  | '-' :: digits => isIndex (String.ofList digits)
  | _ => false

/-- Indices are 64-bit words. -/
def indexBound : Nat := 0x10000000000000000

end Path

end DocExport
