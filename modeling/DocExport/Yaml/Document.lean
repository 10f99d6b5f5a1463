import DocExport.Yaml.Node

/-! The document that a YAML text holds, and the nodes that its aliases stand for. -/
namespace DocExport.Yaml

mutual

/-- The contents with anchors in the order in which a text starts them. -/
def Node.anchored : Node → List (Nat × Content)
  | .alias _ => []
  | .content anchor content => (anchor.map (·, content)).toList ++ content.anchored

def Content.anchored : Content → List (Nat × Content)
  | .scalar _ _ => []
  | .sequence items => anchoredItems items
  | .mapping entries => anchoredEntries entries

def anchoredItems : List Node → List (Nat × Content)
  | [] => []
  | item :: items => item.anchored ++ anchoredItems items

def anchoredEntries : List (Node × Node) → List (Nat × Content)
  | [] => []
  | (key, value) :: entries => key.anchored ++ value.anchored ++ anchoredEntries entries

end

structure Document where
  root : Node

namespace Document

/-- What a node holds. An alias stands for the last node of the document with its number, wherever
that is, so a node may hold an alias for itself. -/
def content? (document : Document) : Node → Option Content
  | .alias number => document.root.anchored.reverse.lookup number
  | .content _ content => some content

/-- Directives before a document: a version and each tag handle at most once. The result has the
handles that tags may use. -/
def handles? : (versioned : Bool) → (handles : List String) → List Token →
    Option (List String × List Token)
  | versioned, handles, .directive .version :: rest =>
    if versioned then none else handles? true handles rest
  | versioned, handles, .directive (.tagHandle handle) :: rest =>
    if handles.contains handle then none else handles? versioned (handle :: handles) rest
  | _, handles, rest => some (["", "!", "!!"] ++ handles, rest)

/-- Whether the node of a document is left out. -/
def isEmptyAt : List Token → Bool
  | [] | .documentStart :: _ | .documentEnd :: _ | .directive _ :: _ => true
  | _ => false

/-- The only document of the tokens, none if there are more or if something follows it. -/
def ofTokens? (tokens : List Token) : Option Document := do
  let (handles, body) ← handles? false [] tokens
  let explicit := body.head? = some .documentStart
  if !explicit && body.length < tokens.length then none
  let body := if explicit then body.drop 1 else body
  let parsed ← if body.isEmpty || explicit && isEmptyAt body then some ⟨.absent, body, []⟩
    else Node.node? handles (3 * body.length + 3) .block [] body
  if parsed.rest.all (· = .documentEnd) then return ⟨parsed.value⟩
  none

/-- The document of a YAML text. An empty text holds one whose node is left out. -/
def ofText? (text : String) : Option Document := (scan? text).bind ofTokens?

end Document

end DocExport.Yaml
