import DocExport.Text.Hexadecimal
import DocExport.Yaml.Cursor

/-! The scalars of a YAML text: plain, quoted and block scalars. Each function starts at the first
character of a scalar and gives its text and the cursor after it. -/
namespace DocExport.Yaml

/-- The characters that mark flow collections and their items. -/
def flowMarks : List Char := [',', '[', ']', '\x7b', '\x7d']

/-- The characters of a plain scalar up to white space or an indicator that ends it, and what
follows. Inside flow collections a colon before an indicator is refused. -/
def plainWord? (inFlow : Bool) : List Char → Option (List Char × List Char)
  | [] => some ([], [])
  | c :: rest =>
    if isGap c || isBreak c then some ([], c :: rest)
    else if c = ':' && atBlank rest then some ([], c :: rest)
    else if inFlow && c = ':' && rest.head?.any ('?' :: flowMarks).contains then none
    else if inFlow && flowMarks.contains c then some ([], c :: rest)
    else (plainWord? inFlow rest).map fun (word, after) => (c :: word, after)

/-- A scalar's text, the cursor after it, and whether a line ended between the two. -/
structure PlainScalar where
  text : List Char
  after : Cursor
  endsLine : Bool

def plainFrom? (inFlow : Bool) (indent : Int) :
    (fuel : Nat) → PlainScalar → (space : List Char) → Option PlainScalar
  | 0, scalar, _ => some scalar
  | fuel + 1, scalar, space =>
    if scalar.after.atDocumentMark || scalar.after.head? = some '#' then some scalar
    else match plainWord? inFlow scalar.after.rest with
      | none => none
      | some ([], _) => some scalar
      | some (word, _) =>
        let after := scalar.after.skip word.length
        match Space.at? indent after with
        | none => none
        | some (next, here) =>
          let read : PlainScalar := ⟨scalar.text ++ space ++ word, here, !next.breaks.isEmpty⟩
          if here.offset = after.offset || (!inFlow && here.column < indent) then some read
          else plainFrom? inFlow indent fuel read next.fold

/-- A plain scalar, whose further lines have to reach column `indent`. -/
def plain? (inFlow : Bool) (indent : Int) (c : Cursor) : Option PlainScalar :=
  plainFrom? inFlow indent c.rest.length ⟨[], c, false⟩ []

/-- What an escape letter in a double-quoted scalar stands for. -/
def escape? : Char → Option Char
  | '0' => some '\x00'
  | 'a' => some '\x07'
  | 'b' => some '\x08'
  | 't' => some '\t'
  | '\t' => some '\t'
  | 'n' => some '\n'
  | 'v' => some '\x0b'
  | 'f' => some '\x0c'
  | 'r' => some '\r'
  | 'e' => some '\x1b'
  | ' ' => some ' '
  | '"' => some '"'
  | '/' => some '/'
  | '\\' => some '\\'
  | 'N' => some '\u0085'
  | '_' => some '\u00a0'
  | 'L' => some '\u2028'
  | 'P' => some '\u2029'
  | _ => none

/-- How many hexadecimal digits follow an escape letter. -/
def escapeDigits? : Char → Option Nat
  | 'x' => some 2
  | 'u' => some 4
  | 'U' => some 8
  | _ => none

/-- The character of a code point in hexadecimal digits. -/
def hexChar? (count : Nat) (digits : List Char) : Option Char :=
  if digits.length = count then
    (Text.hexNumber? digits).bind fun value =>
      if value.isValidChar then some (Char.ofNat value) else none
  else none

/-- The rest of a double-quoted scalar. -/
def doubleQuoted? : (fuel : Nat) → (text : List Char) → Cursor → Option (List Char × Cursor)
  | 0, _, _ => none
  | fuel + 1, text, c =>
    if c.atDocumentMark then none
    else match c.rest with
      | [] => none
      | '"' :: _ => some (text, c.skip 1)
      | '\\' :: x :: rest =>
        if isBreak x then
          match Space.at? 0 (c.skip 1).advance with
          | some (space, here) => doubleQuoted? fuel (text ++ space.breaks) here
          | none => none
        else match escapeDigits? x with
          | some count =>
            match hexChar? count (rest.take count) with
            | some y => doubleQuoted? fuel (text ++ [y]) (c.skip (count + 2))
            | none => none
          | none =>
            match escape? x with
            | some y => doubleQuoted? fuel (text ++ [y]) (c.skip 2)
            | none => none
      | x :: _ =>
        if x = '\\' then none
        else if isGap x || isBreak x then
          match Space.at? 0 c with
          | some (space, here) => doubleQuoted? fuel (text ++ space.fold) here
          | none => none
        else doubleQuoted? fuel (text ++ [x]) (c.skip 1)

/-- The rest of a single-quoted scalar, where only a quote is written twice. -/
def singleQuoted? : (fuel : Nat) → (text : List Char) → Cursor → Option (List Char × Cursor)
  | 0, _, _ => none
  | fuel + 1, text, c =>
    if c.atDocumentMark then none
    else match c.rest with
      | [] => none
      | '\x27' :: '\x27' :: _ => singleQuoted? fuel (text ++ ['\x27']) (c.skip 2)
      | '\x27' :: _ => some (text, c.skip 1)
      | x :: _ =>
        if isGap x || isBreak x then
          match Space.at? 0 c with
          | some (space, here) => singleQuoted? fuel (text ++ space.fold) here
          | none => none
        else singleQuoted? fuel (text ++ [x]) (c.skip 1)

/-- A quoted scalar from its opening quote. -/
def quoted? (c : Cursor) : Option (List Char × Cursor) :=
  let inside := c.skip 1
  if c.head? = some '"' then doubleQuoted? c.rest.length [] inside
  else singleQuoted? c.rest.length [] inside

/-- What becomes of the line breaks at the end of a block scalar. -/
inductive Chomping where
  | strip
  | clip
  | keep
  deriving DecidableEq, Repr

/-- What follows the indicator of a block scalar on its line. -/
structure BlockHeader where
  chomping : Chomping
  increment : Nat
  after : Cursor

def chomping? : Char → Option Chomping
  | '-' => some .strip
  | '+' => some .keep
  | _ => none

/-- An indentation indicator, none if it is zero. -/
def increment? (c : Char) : Option Nat :=
  if c.isDigit && c ≠ '0' then some (c.toNat - 0x30) else none

/-- Chomping and indentation indicator in either order, then nothing but a comment. -/
def blockHeader? (c : Cursor) : Option BlockHeader :=
  let (chomping, increment, after) :=
    match c.rest with
    | x :: y :: _ =>
      match chomping? x, increment? x, chomping? y, increment? y with
      | some k, _, _, some n => (k, n, c.skip 2)
      | some k, _, _, none => (k, 0, c.skip 1)
      | none, some n, some k, _ => (k, n, c.skip 2)
      | none, some n, none, _ => (.clip, n, c.skip 1)
      | none, none, _, _ => (.clip, 0, c)
    | [x] => ((chomping? x).getD .clip, (increment? x).getD 0,
        if (chomping? x).isSome || (increment? x).isSome then c.skip 1 else c)
    | [] => (.clip, 0, c)
  after.endLine?.map fun after => ⟨chomping, increment, after⟩

/-- Empty lines of a block scalar, and the indentation of the line after them. -/
structure BlockGap where
  breaks : List Char
  deepest : Nat
  after : Cursor

/-- With `indent` zero the indentation is still open. A tab in place of it is refused. -/
def blockGap? (indent : Nat) : (fuel : Nat) → BlockGap → Option BlockGap
  | 0, gap => some gap
  | fuel + 1, gap =>
    let spaces := (gap.after.rest.takeWhile (· = ' ')).length
    let here := gap.after.skip
      (if indent = 0 then spaces else min spaces (indent - gap.after.column))
    let deepest := max gap.deepest here.column
    match here.head? with
    | some x =>
      if x = '\t' && (indent = 0 || here.column < indent) then none
      else if isBreak x then blockGap? indent fuel ⟨gap.breaks ++ [x], deepest, here.advance⟩
      else some ⟨gap.breaks, deepest, here⟩
    | none => some ⟨gap.breaks, deepest, here⟩

/-- A block scalar under construction: its text, the break after its last line and those after
that, and whether its last line starts with white space. -/
structure BlockText where
  text : List Char
  lineEnd : List Char
  breaks : List Char
  spaced : Bool
  after : Cursor

def blockLines? (folded : Bool) (indent : Nat) : (fuel : Nat) → BlockText → Option BlockText
  | 0, block => some block
  | fuel + 1, block =>
    if block.after.column ≠ indent || block.after.rest.isEmpty then some block
    else
      let spaced := block.after.head?.any isGap
      let joined :=
        if folded && block.lineEnd.head? = some '\n' && !block.spaced && !spaced then
          if block.breaks.isEmpty then [' '] else []
        else block.lineEnd
      let line := block.after.rest.takeWhile (!isBreak ·)
      let text := block.text ++ joined ++ block.breaks ++ line
      let ended := block.after.skip line.length
      match blockGap? indent ended.rest.length ⟨[], 0, ended.advance⟩ with
      | none => none
      | some gap =>
        blockLines? folded indent fuel ⟨text, ended.rest.take 1, gap.breaks, spaced, gap.after⟩

/-- A block scalar from its indicator, inside a block at column `parent`. -/
def block? (parent : Int) (c : Cursor) : Option (List Char × Cursor) := do
  let header ← blockHeader? (c.skip 1)
  let given := if header.increment = 0 then 0 else parent.toNat + header.increment
  let fuel := c.rest.length + 1
  let gap ← blockGap? given fuel ⟨[], 0, header.after⟩
  let indent := if given = 0 then max gap.deepest (max 1 (parent + 1).toNat) else given
  let block ← blockLines? (c.head? = some '>') indent fuel
    ⟨[], [], gap.breaks, false, gap.after⟩
  let tail := match header.chomping with
    | .strip => []
    | .clip => block.lineEnd
    | .keep => block.lineEnd ++ block.breaks
  return (block.text ++ tail, block.after)

end DocExport.Yaml
