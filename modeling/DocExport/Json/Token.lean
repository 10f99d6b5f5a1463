import DocExport.Document.Basic

/-! The tokens of a JSON text and how each is written. A document is a sequence of tokens whatever
the blanks between them, so both layouts of a text are read from this one sequence. -/
namespace DocExport.Json

inductive Token where
  | arrayOpen
  | arrayClose
  | objectOpen
  | objectClose
  | comma
  | colon
  | scalar (value : Scalar)
  deriving DecidableEq, Repr

/-- A character inside a string. Only quotes, backslashes and control characters are escaped. -/
def escapeChar (c : Char) : List Char :=
  if c = '"' then ['\\', '"']
  else if c = '\\' then ['\\', '\\']
  else if c = '\x08' then ['\\', 'b']
  else if c = '\t' then ['\\', 't']
  else if c = '\n' then ['\\', 'n']
  else if c = '\x0c' then ['\\', 'f']
  else if c = '\r' then ['\\', 'r']
  else if c.toNat < 0x20 then
    ['\\', 'u', '0', '0', Nat.digitChar (c.toNat / 16), Nat.digitChar (c.toNat % 16)]
  else [c]

def quoted (text : String) : List Char :=
  '"' :: text.toList.flatMap escapeChar ++ ['"']

def scalarChars : Scalar → List Char
  | .null => ['n', 'u', 'l', 'l']
  | .bool true => ['t', 'r', 'u', 'e']
  | .bool false => ['f', 'a', 'l', 's', 'e']
  | .number value => value.chars
  | .string value => quoted value

def Token.chars : Token → List Char
  | .arrayOpen => ['[']
  | .arrayClose => [']']
  | .objectOpen => ['\x7b']
  | .objectClose => ['\x7d']
  | .comma => [',']
  | .colon => [':']
  | .scalar value => scalarChars value

/-- All tokens side by side. -/
def compact (tokens : List Token) : List Char :=
  tokens.flatMap Token.chars

def newLine (depth : Nat) : List Char :=
  '\n' :: List.replicate (2 * depth) ' '

/-- One item or member a line, two spaces for each open container; empty containers stay closed
up. `depth` counts the containers open before the first token. -/
def indented : (depth : Nat) → List Token → List Char
  | _, [] => []
  | depth, .arrayOpen :: .arrayClose :: rest => '[' :: ']' :: indented depth rest
  | depth, .objectOpen :: .objectClose :: rest => '\x7b' :: '\x7d' :: indented depth rest
  | depth, token :: rest =>
    match token with
    | .arrayOpen | .objectOpen => token.chars ++ newLine (depth + 1) ++ indented (depth + 1) rest
    | .arrayClose | .objectClose => newLine (depth - 1) ++ token.chars ++ indented (depth - 1) rest
    | .comma => token.chars ++ newLine depth ++ indented depth rest
    | .colon => token.chars ++ ' ' :: indented depth rest
    | .scalar _ => token.chars ++ indented depth rest

end DocExport.Json
