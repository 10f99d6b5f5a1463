import DocExport.Yaml.Directive
import DocExport.Yaml.Scalar

/-! The tokens of a YAML text. Indentation becomes explicit starts and ends of block collections,
and a key that is recognised only by the colon after it is marked in front of its first token. -/
namespace DocExport.Yaml

inductive Token where
  | directive (directive : Directive)
  | documentStart
  | documentEnd
  | blockSequenceStart
  | blockMappingStart
  | blockEnd
  | flowSequenceStart
  | flowSequenceEnd
  | flowMappingStart
  | flowMappingEnd
  | blockEntry
  | flowEntry
  | key
  | value
  | alias (name : String)
  | anchor (name : String)
  | tag (handle : String)
  | scalar (text : String) (isPlain : Bool)
  deriving DecidableEq, Repr

/-- A place where a key may have started: before the token `position`. A required key starts a line
of a block mapping, so it must turn out to be one. -/
structure PendingKey where
  position : Nat
  required : Bool
  start : Cursor

/-- The tokens read so far and what the next ones depend on. -/
structure Scanner where
  cursor : Cursor
  tokens : Array Token
  /-- Column of the innermost open block collection, −1 outside of all. -/
  indent : Int
  /-- Columns of the enclosing ones. -/
  outer : List Int
  /-- Whether a key without an indicator may start here. -/
  keyAllowed : Bool
  /-- The pending key of each open flow collection, innermost first, and of the block last. -/
  pending : List (Option PendingKey)

namespace Scanner

def start (text : List Char) : Scanner := ⟨.start text, #[], -1, [], true, [none]⟩

def inFlow (s : Scanner) : Bool := 1 < s.pending.length

def emit (s : Scanner) (token : Token) : Scanner := { s with tokens := s.tokens.push token }

def move (s : Scanner) (count : Nat) : Scanner := { s with cursor := s.cursor.skip count }

def allowKey (s : Scanner) (allowed : Bool) : Scanner := { s with keyAllowed := allowed }

/-- An implicit key stays on one line and has no more bytes than this. -/
def longestKey : Nat := 1024

/-- Pending keys that are too far back are given up, which a required one does not allow. -/
def expireKeys? (s : Scanner) : Option Scanner := do
  let pending ← s.pending.mapM fun slot =>
    match slot with
    | none => some none
    | some key =>
      if key.start.line < s.cursor.line || key.start.offset + longestKey < s.cursor.offset then
        if key.required then none else some none
      else some (some key)
  return { s with pending }

/-- The innermost pending key is given up. -/
def dropKey? (s : Scanner) : Option Scanner :=
  match s.pending with
  | some key :: outer => if key.required then none else some { s with pending := none :: outer }
  | _ => some s

/-- A key may start here. -/
def markKey? (s : Scanner) : Option Scanner :=
  if s.keyAllowed then do
    let required := !s.inFlow && s.indent = s.cursor.column
    let s ← s.dropKey?
    return { s with pending := some ⟨s.tokens.size, required, s.cursor⟩ :: s.pending.drop 1 }
  else some s

/-- A block collection at a deeper column is opened, its start standing before the token
`position`. -/
def openBlock (s : Scanner) (column : Nat) (position : Nat) (token : Token) : Scanner :=
  if !s.inFlow && s.indent < column then
    { s with
      tokens := s.tokens.insertIdxIfInBounds position token
      indent := column
      outer := s.indent :: s.outer }
  else s

/-- The block collections at columns beyond `column` are closed. -/
def closeBlocks (column : Int) : (outer : List Int) → Scanner → Scanner
  | next :: rest, s =>
    if column < s.indent then
      closeBlocks column rest { (s.emit .blockEnd) with indent := next, outer := rest }
    else s
  | [], s => s

def leaveBlocks (s : Scanner) (column : Int) : Scanner :=
  if s.inFlow then s else closeBlocks column s.outer s

/-- Past white space, comments and line breaks. A line may start with a byte order mark, and a line
of a block with a key. -/
def skipSpace : (fuel : Nat) → Scanner → Scanner
  | 0, s => s
  | fuel + 1, s =>
    let marked := s.cursor.column = 0 && s.cursor.head? = some '\uFEFF'
    let here := (if marked then s.cursor.skip 1 else s.cursor).skipComment fun c =>
      c = ' ' || (c = '\t' && (s.inFlow || !s.keyAllowed))
    match here.head? with
    | some c =>
      if isBreak c then
        skipSpace fuel { s with
          cursor := here.advance
          keyAllowed := if s.inFlow then s.keyAllowed else true }
      else { s with cursor := here }
    | none => { s with cursor := here }

/-- A flow collection is opened. -/
def openFlow? (s : Scanner) (token : Token) : Option Scanner := do
  let s ← s.markKey?
  return (({ s with pending := none :: s.pending }.allowKey true).emit token).move 1

/-- A flow collection is closed. -/
def closeFlow? (s : Scanner) (token : Token) : Option Scanner := do
  let s ← s.dropKey?
  let pending := if s.inFlow then s.pending.drop 1 else s.pending
  return (({ s with pending }.allowKey false).emit token).move 1

/-- A dash, question mark or colon where a block collection may start. -/
def blockIndicator? (s : Scanner) (collection token : Token) : Option Scanner :=
  if s.inFlow then some (s.emit token)
  else if s.keyAllowed then
    some ((s.openBlock s.cursor.column s.tokens.size collection).emit token)
  else none

def entry? (s : Scanner) : Option Scanner := do
  let s ← s.dropKey?
  return ((← s.blockIndicator? .blockSequenceStart .blockEntry).allowKey true).move 1

def explicitKey? (s : Scanner) : Option Scanner := do
  let s ← s.dropKey?
  return ((← s.blockIndicator? .blockMappingStart .key).allowKey !s.inFlow).move 1

/-- The colon before a value. If a key is pending, it is one. -/
def value? (s : Scanner) : Option Scanner :=
  match s.pending with
  | some key :: outer =>
    let s := { s with tokens := s.tokens.insertIdxIfInBounds key.position .key
                      pending := none :: outer }
    let s := s.openBlock key.start.column key.position .blockMappingStart
    some ((s.emit .value |>.allowKey false).move 1)
  | _ => do
    return ((← s.blockIndicator? .blockMappingStart .value).allowKey !s.inFlow).move 1

/-- The name of an anchor or alias, after its indicator. -/
def name? (s : Scanner) (token : String → Token) : Option Scanner := do
  let s ← s.markKey?
  let after := (s.cursor.skip 1).skipWhile isNameChar
  let name := (s.cursor.skip 1).textTo after
  let ends := atBlank after.rest ||
    after.head?.any ['?', ':', ',', ']', '\x7d', '%', '@', '\x60'].contains
  if name.isEmpty || !ends then none
  else return { (s.allowKey false).emit (token name) with cursor := after }

/-- A tag stands apart from what follows it, a comma in a flow collection excepted. -/
def tag? (s : Scanner) : Option Scanner := do
  let s ← s.markKey?
  let (handle, after) ← s.cursor.tag?
  if atBlank after.rest || (s.inFlow && after.head? = some ',') then
    return { (s.allowKey false).emit (.tag handle) with cursor := after }
  none

def quotedScalar? (s : Scanner) : Option Scanner := do
  let s ← s.markKey?
  let (text, after) ← quoted? s.cursor
  return { (s.allowKey false).emit (.scalar (String.ofList text) false) with cursor := after }

def blockScalar? (s : Scanner) : Option Scanner := do
  let s ← s.dropKey?
  let (text, after) ← block? s.indent s.cursor
  return { (s.allowKey true).emit (.scalar (String.ofList text) false) with cursor := after }

def plainScalar? (s : Scanner) : Option Scanner := do
  let s ← s.markKey?
  let scalar ← plain? s.inFlow (s.indent + 1) s.cursor
  return { (s.allowKey scalar.endsLine).emit (.scalar (String.ofList scalar.text) true) with
    cursor := scalar.after }

def directive? (s : Scanner) : Option Scanner := do
  let s ← (s.leaveBlocks (-1)).dropKey?
  let (directive, after) ← s.cursor.directive?
  return { (s.allowKey false).emit (.directive directive) with cursor := after }

def documentMark? (s : Scanner) (token : Token) : Option Scanner := do
  let s ← (s.leaveBlocks (-1)).dropKey?
  return ((s.allowKey false).emit token).move 3

/-- Whether a plain scalar can start with the first of these characters. -/
def startsPlain (inFlow : Bool) (text : List Char) : Bool :=
  match text with
  | [] => false
  | c :: rest =>
    if isGap c then false
    else if c = '-' then !rest.head?.any isGap
    else if c = '?' || c = ':' then !inFlow && !atBlank rest
    else
      !flowMarks.contains c &&
        !(['#', '&', '*', '!', '|', '>', '\x27', '"', '%', '@', '\x60'].contains c)

/-- The next token, or the tokens that the end of the text brings. Indicators are told by the
character they start with and by what follows it. -/
def token? (s : Scanner) : Option Scanner :=
  match s.cursor.rest with
  | [] => ((s.leaveBlocks (-1)).dropKey?).map (·.allowKey false)
  | c :: rest =>
    if s.cursor.column = 0 && c = '%' then s.directive?
    else if s.cursor.atMark '-' then s.documentMark? .documentStart
    else if s.cursor.atMark '.' then s.documentMark? .documentEnd
    else if c = '[' then s.openFlow? .flowSequenceStart
    else if c = '\x7b' then s.openFlow? .flowMappingStart
    else if c = ']' then s.closeFlow? .flowSequenceEnd
    else if c = '\x7d' then s.closeFlow? .flowMappingEnd
    else if c = ',' then s.dropKey?.map fun s => ((s.allowKey true).emit .flowEntry).move 1
    else if c = '-' && atBlank rest then s.entry?
    else if c = '?' && (s.inFlow || atBlank rest) then s.explicitKey?
    else if c = ':' && (s.inFlow || atBlank rest) then s.value?
    else if c = '*' then s.name? .alias
    else if c = '&' then s.name? .anchor
    else if c = '!' then s.tag?
    else if (c = '|' || c = '>') && !s.inFlow then s.blockScalar?
    else if c = '"' || c = '\x27' then s.quotedScalar?
    else if startsPlain s.inFlow s.cursor.rest then s.plainScalar?
    else none

/-- Every round reads at least one character. -/
def run? : (fuel : Nat) → Scanner → Option Scanner
  | 0, s => some s
  | fuel + 1, s => do
    let s ← (skipSpace (s.cursor.rest.length + 1) s).expireKeys?
    let s ← (s.leaveBlocks s.cursor.column).token?
    run? fuel s

end Scanner

/-- All tokens of a text, none if it is no YAML. -/
def scan? (text : String) : Option (List Token) :=
  let chars := text.toList
  if chars.all isPrintable then
    let chars := normalizeBreaks chars
    ((Scanner.start chars).run? (chars.length + 1)).map (·.tokens.toList)
  else none

end DocExport.Yaml
