/-! Places in a YAML text, counted in lines and columns, and the white space between its words. -/
namespace DocExport.Yaml

def isBreak (c : Char) : Bool := c = '\n' || c = '\u2028' || c = '\u2029'

def isGap (c : Char) : Bool := c = ' ' || c = '\t'

/-- Whether a text is at its end, or starts with white space. -/
def atBlank : List Char → Bool
  | [] => true
  | c :: _ => isGap c || isBreak c

/-- The text with a line feed for each carriage return, line feed after one, and next-line
character. -/
def normalizeBreaks : List Char → List Char
  | [] => []
  | '\r' :: '\n' :: rest => '\n' :: normalizeBreaks rest
  | c :: rest => (if c = '\r' || c = '\u0085' then '\n' else c) :: normalizeBreaks rest

/-- Whether a character may stand in a text at all. -/
def isPrintable (c : Char) : Bool :=
  c = '\t' || c = '\n' || c = '\r' || (' ' ≤ c && c ≤ '~') || c = '\u0085' ||
    (0xA0 ≤ c.toNat && c.toNat ≠ 0xFFFE && c.toNat ≠ 0xFFFF)

/-- What is left of a text and where that begins. The offset counts bytes of UTF-8, the column
characters. -/
structure Cursor where
  rest : List Char
  line : Nat
  column : Nat
  offset : Nat

namespace Cursor

def start (text : List Char) : Cursor := ⟨text, 0, 0, 0⟩

/-- One character further. -/
def advance (c : Cursor) : Cursor :=
  match c.rest with
  | [] => c
  | x :: rest =>
    if isBreak x then ⟨rest, c.line + 1, 0, c.offset + x.utf8Size⟩
    else ⟨rest, c.line, c.column + 1, c.offset + x.utf8Size⟩

/-- Past `count` characters that are no line breaks. -/
def skip (c : Cursor) (count : Nat) : Cursor :=
  let offset := (c.rest.take count).foldl (fun offset x => offset + x.utf8Size) c.offset
  ⟨c.rest.drop count, c.line, c.column + count, offset⟩

/-- Past the characters from here that satisfy `p`, none of which is a line break. -/
def skipWhile (c : Cursor) (p : Char → Bool) : Cursor := c.skip (c.rest.takeWhile p).length

def head? (c : Cursor) : Option Char := c.rest.head?

/-- What stands between a cursor and a later one. -/
def textTo (c after : Cursor) : String :=
  String.ofList (c.rest.take (c.rest.length - after.rest.length))

/-- Whether a line starts here with three of the given characters standing alone. -/
def atMark (c : Cursor) (mark : Char) : Bool :=
  c.column = 0 && c.rest.take 3 = List.replicate 3 mark && atBlank (c.rest.drop 3)

def atDocumentMark (c : Cursor) : Bool := c.atMark '-' || c.atMark '.'

/-- Up to the end of the line. -/
def skipLine (c : Cursor) : Cursor := c.skipWhile (!isBreak ·)

/-- Past white space and a comment. -/
def skipComment (c : Cursor) (isSpace : Char → Bool) : Cursor :=
  let c := c.skipWhile isSpace
  if c.head? = some '#' then c.skipLine else c

/-- At the start of the next line, if nothing but a comment is left of this one. -/
def endLine? (c : Cursor) : Option Cursor :=
  let c := c.skipComment isGap
  match c.head? with
  | none => some c
  | some x => if isBreak x then some c.advance else none

end Cursor

/-- White space inside a scalar: the gap before the first line break, or the breaks. -/
structure Space where
  gap : List Char
  breaks : List Char

namespace Space

/-- A single break is a space, and the first of several is dropped. -/
def fold (s : Space) : List Char :=
  match s.breaks with
  | [] => s.gap
  | ['\n'] => [' ']
  | '\n' :: more => more
  | breaks => breaks

/-- The white space from here. After a break, a tab before column `indent` is refused. -/
def scan? (indent : Int) : (fuel : Nat) → Space → Cursor → Option (Space × Cursor)
  | 0, s, c => some (s, c)
  | fuel + 1, s, c =>
    match c.head? with
    | some x =>
      if isBreak x then scan? indent fuel ⟨[], s.breaks ++ [x]⟩ c.advance
      else if isGap x then
        if s.breaks.isEmpty then scan? indent fuel ⟨s.gap ++ [x], []⟩ c.advance
        else if x = '\t' ∧ c.column < indent then none
        else scan? indent fuel s c.advance
      else some (s, c)
    | none => some (s, c)

def at? (indent : Int) (c : Cursor) : Option (Space × Cursor) :=
  scan? indent c.rest.length ⟨[], []⟩ c

end Space

end DocExport.Yaml
