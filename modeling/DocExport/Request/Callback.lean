/-! Names of callback functions: ASCII identifiers joined by dots. Nothing else may be written
before the parenthesis of a wrapped body. -/
namespace DocExport.Callback

def isStart (c : Char) : Bool := c.isAlpha || c = '_' || c = '$'

def isContinue (c : Char) : Bool := isStart c || c.isDigit

/-- Where the reading of a name stands. -/
inductive Position where
  /-- An identifier has to start here. -/
  | start
  /-- Inside an identifier, which may end here. -/
  | inside
  deriving DecidableEq, Repr

def Position.next? : Position → Char → Option Position
  | .start, c => if isStart c then some .inside else none
  | .inside, c => if c = '.' then some .start else if isContinue c then some .inside else none

/-- Whether a name can end after the text that follows a position. -/
def Position.accepts : Position → List Char → Bool
  | .start, [] => false
  | .inside, [] => true
  | position, c :: rest =>
    match position.next? c with
    | some next => next.accepts rest
    | none => false

def isName (text : String) : Bool := Position.start.accepts text.toList

end DocExport.Callback
