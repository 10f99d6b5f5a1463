import DocExport.Yaml.Token

/-! The nodes of a YAML text: scalars with their text, sequences and mappings. The anchors of nodes
are known by numbers, and aliases refer to nodes by them. -/
namespace DocExport.Yaml

mutual

/-- What stands in the place of a node: an alias, or content that may have an anchor. -/
inductive Node where
  | alias (number : Nat)
  | content (anchor : Option Nat) (content : Content)

inductive Content where
  | scalar (text : String) (isPlain : Bool)
  | sequence (items : List Node)
  | mapping (entries : List (Node × Node))

end

/-- The numbers of the anchors whose names a text has used so far, each name once. -/
abbrev Anchors := List (String × Nat)

/-- A use of a name in front of a node takes the number of different names used before it. So a name
that is used again changes its number, and may share it with the next name that is new. -/
def Anchors.use (anchors : Anchors) (name : String) : Anchors :=
  (name, anchors.length) :: anchors.filter (·.1 ≠ name)

/-- What stands for a node that is left out. -/
def Content.absent : Content := .scalar "" true

namespace Node

def absent : Node := .content none .absent

/-- A node or its parts, the tokens after them, and the anchors seen so far. -/
structure Parsed (α : Type) where
  value : α
  rest : List Token
  anchors : Anchors

def Parsed.map {α β : Type} (f : α → β) (p : Parsed α) : Parsed β := ⟨f p.value, p.rest, p.anchors⟩

/-- Anchor and tag in front of a node, each at most once. -/
structure Properties where
  anchor : Option String := none
  tagged : Bool := false
  rest : List Token

/-- A tag's handle has to be declared. -/
def properties? (handles : List String) (tokens : List Token) : Option Properties :=
  match tokens with
  | .anchor a :: .tag t :: rest | .tag t :: .anchor a :: rest =>
    if handles.contains t then some ⟨some a, true, rest⟩ else none
  | .anchor a :: rest => some ⟨some a, false, rest⟩
  | .tag t :: rest => if handles.contains t then some ⟨none, true, rest⟩ else none
  | rest => some ⟨none, false, rest⟩

/-- Whether the next token can start no node, so that the node there is left out. -/
def endsBlock : List Token → Bool
  | .blockEntry :: _ | .key :: _ | .value :: _ | .blockEnd :: _ => true
  | _ => false

/-- Whether the next token ends an item of a flow collection that `close` ends. -/
def endsItem (close : Token) (tokens : List Token) : Bool :=
  tokens.head?.any fun token => token = .flowEntry || token = close

/-- Whether the next token ends a key of a flow collection that `close` ends. -/
def endsKey (close : Token) (tokens : List Token) : Bool :=
  endsItem close tokens || tokens.head? = some .value

/-- Where a node stands. -/
inductive Place where
  | block
  /-- Where the dashes of a sequence need not be indented. -/
  | mappingValue
  | flow
  deriving DecidableEq

mutual

/-- The node at the start of the tokens. Every call takes one from the fuel, and no token is met
by more than three calls. -/
def node? (handles : List String) : (fuel : Nat) → Place → Anchors → List Token →
    Option (Parsed Node)
  | 0, _, _, _ => none
  | fuel + 1, place, anchors, tokens =>
    match tokens with
    | .alias name :: rest =>
      (anchors.lookup name).map fun number => ⟨.alias number, rest, anchors⟩
    | _ => do
      let props ← properties? handles tokens
      let anchors := props.anchor.elim anchors anchors.use
      let number := props.anchor.bind (anchors.lookup ·)
      let parsed ← content? handles fuel place anchors (props.anchor.isSome || props.tagged)
        props.rest
      return parsed.map (.content number)

/-- A node without its properties; after properties it may be left out. -/
def content? (handles : List String) : (fuel : Nat) → Place → Anchors → (optional : Bool) →
    List Token → Option (Parsed Content)
  | 0, _, _, _, _ => none
  | fuel + 1, place, anchors, optional, tokens =>
    match tokens with
    | .scalar text isPlain :: rest => some ⟨.scalar text isPlain, rest, anchors⟩
    | .flowSequenceStart :: rest =>
      (flowItems? handles fuel anchors true rest).map (·.map .sequence)
    | .flowMappingStart :: rest =>
      (flowEntries? handles fuel anchors true rest).map (·.map .mapping)
    | .blockSequenceStart :: rest =>
      if place = .flow then none
      else (blockItems? handles fuel anchors true rest).map (·.map .sequence)
    | .blockMappingStart :: rest =>
      if place = .flow then none
      else (blockEntries? handles fuel anchors rest).map (·.map .mapping)
    | .blockEntry :: _ =>
      if place = .mappingValue then
        (blockItems? handles fuel anchors false tokens).map (·.map .sequence)
      else if optional then some ⟨.absent, tokens, anchors⟩ else none
    | _ => if optional then some ⟨.absent, tokens, anchors⟩ else none

/-- Items behind dashes, up to the end of their block; without a block of their own, as long as
there are dashes. -/
def blockItems? (handles : List String) : (fuel : Nat) → Anchors → (own : Bool) → List Token →
    Option (Parsed (List Node))
  | 0, _, _, _ => none
  | fuel + 1, anchors, own, tokens =>
    match tokens with
    | .blockEntry :: rest => do
      let item ← if endsBlock rest then some ⟨absent, rest, anchors⟩
        else node? handles fuel .block anchors rest
      let more ← blockItems? handles fuel item.anchors own item.rest
      return more.map (item.value :: ·)
    | .blockEnd :: rest => if own then some ⟨[], rest, anchors⟩ else some ⟨[], tokens, anchors⟩
    | _ => if own then none else some ⟨[], tokens, anchors⟩

def blockEntries? (handles : List String) : (fuel : Nat) → Anchors → List Token →
    Option (Parsed (List (Node × Node)))
  | 0, _, _ => none
  | fuel + 1, anchors, tokens =>
    match tokens with
    | .key :: rest => do
      let key ← if endsBlock rest && rest.head? ≠ some .blockEntry
        then some ⟨absent, rest, anchors⟩
        else node? handles fuel .mappingValue anchors rest
      let value ← match key.rest with
        | .value :: rest =>
          if endsBlock rest && rest.head? ≠ some .blockEntry then some ⟨absent, rest, key.anchors⟩
          else node? handles fuel .mappingValue key.anchors rest
        | rest => some ⟨absent, rest, key.anchors⟩
      let more ← blockEntries? handles fuel value.anchors value.rest
      return more.map ((key.value, value.value) :: ·)
    | .blockEnd :: rest => some ⟨[], rest, anchors⟩
    | _ => none

/-- A value behind its colon in a flow collection that `close` ends, or none. -/
def flowValue? (handles : List String) : (fuel : Nat) → Anchors → (close : Token) → List Token →
    Option (Parsed Node)
  | 0, _, _, _ => none
  | fuel + 1, anchors, close, tokens =>
    match tokens with
    | .value :: rest =>
      if endsItem close rest then some ⟨absent, rest, anchors⟩
      else node? handles fuel .flow anchors rest
    | _ => some ⟨absent, tokens, anchors⟩

/-- Items between commas up to the closing bracket. A key and its value make a mapping of one
entry. The token in the place of a key that is left out belongs to it. -/
def flowItems? (handles : List String) : (fuel : Nat) → Anchors → (first : Bool) → List Token →
    Option (Parsed (List Node))
  | 0, _, _, _ => none
  | fuel + 1, anchors, first, tokens =>
    match tokens with
    | .flowSequenceEnd :: rest => some ⟨[], rest, anchors⟩
    | .flowEntry :: .flowSequenceEnd :: rest => if first then none else some ⟨[], rest, anchors⟩
    | _ => do
      let tokens ← match first, tokens with
        | true, tokens => some tokens
        | false, .flowEntry :: rest => some rest
        | false, _ => none
      let item ← match tokens with
        | .key :: rest => do
          let key ← if endsKey .flowSequenceEnd rest then some ⟨absent, rest.drop 1, anchors⟩
            else node? handles fuel .flow anchors rest
          let value ← flowValue? handles fuel key.anchors .flowSequenceEnd key.rest
          some (value.map fun node => .content none (.mapping [(key.value, node)]))
        | _ => node? handles fuel .flow anchors tokens
      let more ← flowItems? handles fuel item.anchors false item.rest
      return more.map (item.value :: ·)

/-- Entries between commas up to the closing brace. A key without a colon has no value. -/
def flowEntries? (handles : List String) : (fuel : Nat) → Anchors → (first : Bool) → List Token →
    Option (Parsed (List (Node × Node)))
  | 0, _, _, _ => none
  | fuel + 1, anchors, first, tokens =>
    match tokens with
    | .flowMappingEnd :: rest => some ⟨[], rest, anchors⟩
    | .flowEntry :: .flowMappingEnd :: rest => if first then none else some ⟨[], rest, anchors⟩
    | _ => do
      let tokens ← match first, tokens with
        | true, tokens => some tokens
        | false, .flowEntry :: rest => some rest
        | false, _ => none
      let entry ← match tokens with
        | .key :: rest => do
          let key ← if endsKey .flowMappingEnd rest then some ⟨absent, rest, anchors⟩
            else node? handles fuel .flow anchors rest
          let value ← flowValue? handles fuel key.anchors .flowMappingEnd key.rest
          some (value.map (key.value, ·))
        | _ => (node? handles fuel .flow anchors tokens).map (·.map (·, absent))
      let more ← flowEntries? handles fuel entry.anchors false entry.rest
      return more.map (entry.value :: ·)

end

end Node

end DocExport.Yaml
