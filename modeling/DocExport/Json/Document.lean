import DocExport.Json.Scan

/-! Documents as token sequences, in both directions. Reading keeps the open containers on a stack
and takes one token at a time, so a prefix of the tokens is always a stack and a focus. -/
namespace DocExport

mutual

/-- The tokens of a document, followed by `rest`. -/
def Document.tokensThen : Document → List Json.Token → List Json.Token
  | .scalar value, rest => .scalar value :: rest
  | .array [], rest => .arrayOpen :: .arrayClose :: rest
  | .array (item :: items), rest =>
    .arrayOpen :: item.tokensThen (Document.itemsThen items (.arrayClose :: rest))
  | .object [], rest => .objectOpen :: .objectClose :: rest
  | .object ((key, value) :: members), rest =>
    .objectOpen :: .scalar (.string key) :: .colon ::
      value.tokensThen (Document.membersThen members (.objectClose :: rest))

/-- Further items of an array, each after a comma. -/
def Document.itemsThen : List Document → List Json.Token → List Json.Token
  | [], rest => rest
  | item :: items, rest => .comma :: item.tokensThen (Document.itemsThen items rest)

/-- Further members of an object, each after a comma. -/
def Document.membersThen : List (String × Document) → List Json.Token → List Json.Token
  | [], rest => rest
  | (key, value) :: members, rest =>
    .comma :: .scalar (.string key) :: .colon ::
      value.tokensThen (Document.membersThen members rest)

end

def Document.tokens (d : Document) : List Json.Token := d.tokensThen []

namespace Json

/-- A container that is still open: an array with its items so far, newest first, or an object
with its members so far and, while a value is awaited, that value's key. -/
inductive Frame where
  | array (items : List Document)
  | object (members : List Member)
  | member (members : List Member) (key : String)

/-- What the next token has to be. -/
inductive Focus where
  /-- A value. -/
  | value
  /-- The first item or member of the innermost container, or its end. -/
  | first
  /-- The key of a further member. -/
  | key
  /-- The colon after a key. -/
  | colon (key : String)
  /-- What follows a finished value. -/
  | finished (value : Document)

/-- Containers may nest this deep. -/
def depthLimit : Nat := 127

/-- The start of a value. -/
def startValue (stack : List Frame) : Token → Option (List Frame × Focus)
  | .scalar value => some (stack, .finished (.scalar value))
  | .arrayOpen => if stack.length < depthLimit then some (.array [] :: stack, .first) else none
  | .objectOpen => if stack.length < depthLimit then some (.object [] :: stack, .first) else none
  | _ => none

/-- The key of a member. -/
def startMember (stack : List Frame) : Token → Option (List Frame × Focus)
  | .scalar (.string key) => some (stack, .colon key)
  | _ => none

/-- One token. A key that an object has already keeps its place and takes the new value. -/
def step : List Frame → Focus → Token → Option (List Frame × Focus)
  | stack, .value, token => startValue stack token
  | .array [] :: stack, .first, .arrayClose => some (stack, .finished (.array []))
  | .array [] :: stack, .first, token => startValue (.array [] :: stack) token
  | .object [] :: stack, .first, .objectClose => some (stack, .finished (.object []))
  | .object [] :: stack, .first, token => startMember (.object [] :: stack) token
  | stack, .key, token => startMember stack token
  | .object members :: stack, .colon key, .colon => some (.member members key :: stack, .value)
  | .array items :: stack, .finished value, .comma =>
    some (.array (value :: items) :: stack, .value)
  | .array items :: stack, .finished value, .arrayClose =>
    some (stack, .finished (.array (value :: items).reverse))
  | .member members key :: stack, .finished value, .comma =>
    some (.object (Document.setMember key value members) :: stack, .key)
  | .member members key :: stack, .finished value, .objectClose =>
    some (stack, .finished (.object (Document.setMember key value members)))
  | _, _, _ => none

def run : List Frame → Focus → List Token → Option Document
  | [], .finished value, [] => some value
  | _, _, [] => none
  | stack, focus, token :: tokens =>
    match step stack focus token with
    | some (stack, focus) => run stack focus tokens
    | none => none

/-- The document that is the whole token sequence. -/
def ofTokens? (tokens : List Token) : Option Document := run [] .value tokens

end Json

namespace Document

/-- The document that a JSON text denotes. -/
def ofJson? (text : String) : Option Document :=
  (Json.scan text.toList).bind Json.ofTokens?

def compact (d : Document) : String := String.ofList (Json.compact d.tokens)

def indented (d : Document) : String := String.ofList (Json.indented 0 d.tokens)

end Document

end DocExport
