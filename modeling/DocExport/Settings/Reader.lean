import DocExport.Settings.Basic
import DocExport.Yaml.Document

/-! Settings read from a YAML text. Every setting may be left out, and names that are none are
passed over. -/
namespace DocExport.Settings

/-- Any scalar is the text that it is written with. -/
def text? (document : Yaml.Document) (node : Yaml.Node) : Option String :=
  match document.content? node with
  | some (.scalar text _) => some text
  | _ => none

/-- The fields of a record that a mapping gives, each name once at most. A node that is left out
gives none, and any other node is no record. -/
def fields? (document : Yaml.Document) (names : List String) (node : Yaml.Node) :
    Option (List (String × Yaml.Node)) :=
  match document.content? node with
  | some (.scalar text isPlain) => if text.isEmpty && isPlain then some [] else none
  | some (.mapping entries) => do
    let named ← entries.mapM fun (key, value) => (text? document key).map (·, value)
    let known := named.filter fun field => names.contains field.1
    if (known.map (·.1)).Nodup then some known else none
  | _ => none

/-- A text field, or what stands for it if it is left out. -/
def textField? (document : Yaml.Document) (fields : List (String × Yaml.Node))
    (name default : String) : Option String :=
  match fields.lookup name with
  | some node => text? document node
  | none => some default

def ofNode? (document : Yaml.Document) (node : Yaml.Node) : Option Settings := do
  let fields ← fields? document
    ["line_terminator", "csv_content_type", "callback_content_type", "transform"] node
  let field? := textField? document fields
  let default : Settings := {}
  return {
    lineTerminator := ← field? "line_terminator" default.lineTerminator
    csvContentType := ← field? "csv_content_type" default.csvContentType
    callbackContentType := ← field? "callback_content_type" default.callbackContentType
    transform := ← field? "transform" default.transform }

/-- The settings stand under `render`. -/
def ofText? (text : String) : Option Settings := do
  let document ← Yaml.Document.ofText? text
  let fields ← fields? document ["render"] document.root
  match fields.lookup "render" with
  | some node => ofNode? document node
  | none => return {}

end DocExport.Settings
