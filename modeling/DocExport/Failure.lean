import DocExport.Document.Basic
import DocExport.Document.Path

/-! Everything that can go wrong, as causes. The wording of each cause is here, and so is what a
failure means to the caller: the exit code and whether the request is to blame. -/
namespace DocExport

/-- The greatest index that a write may pad an array up to. -/
def Document.indexLimit : Nat := 65535

/-- Why a path cannot be followed. The path is the part still to be followed. -/
inductive AddressFault where
  | negativeIndex (segment : String) (path : Path)
  | notAnIndex (segment : String) (path : Path)
  | indexTooLarge (segment : String) (path : Path)
  | indexOverLimit (index : Nat) (path : Path)
  | insideScalar (kind : Kind) (path : Path)
  deriving DecidableEq, Repr

/-- Why documents do not fit an output. Positions count from zero. -/
inductive FormatFault where
  | scalarRoot (kind : Kind)
  | rowNotObject (position : Nat) (kind : Kind)
  | repeatedPath (path : String)
  | noRows (position : Nat)
  | elementName (key : String)
  deriving DecidableEq, Repr

inductive RequestFault where
  | callback (name : String)
  | outputFormat (name : String)
  deriving DecidableEq, Repr

inductive SettingsFault where
  | emptyTerminator
  | unknownTransform (name : String) (known : List String)
  deriving DecidableEq, Repr

inductive Failure where
  | addressing (fault : AddressFault)
  | format (fault : FormatFault)
  | request (fault : RequestFault)
  | settings (fault : SettingsFault)
  /-- Input that is no JSON. -/
  | input (source : String)
  /-- A document text that is no JSON. -/
  | documentText
  /-- A settings text that cannot be read. -/
  | settingsText
  /-- A settings file that cannot be opened. -/
  | settingsFile (name : String)
  deriving DecidableEq, Repr

def AddressFault.message : AddressFault → String
  | .negativeIndex segment path => s!"negative array index '{segment}' in path '{path.text}'"
  | .notAnIndex segment path =>
    s!"expected an array index but found '{segment}' in path '{path.text}'"
  | .indexTooLarge segment path =>
    s!"array index '{segment}' is too large in path '{path.text}'"
  | .indexOverLimit index path =>
    let limit := Document.indexLimit
    s!"array index {index} exceeds the limit of {limit} in path '{path.text}'"
  | .insideScalar kind path => s!"cannot set '{path.text}' inside a {kind.name} value"

def FormatFault.message : FormatFault → String
  | .scalarRoot kind => s!"cannot flatten a {kind.name} value, expected an object or array"
  | .rowNotObject position kind =>
    s!"document {position} is a {kind.name} and cannot be flattened into a row"
  | .repeatedPath path => s!"more than one value flattens to the path '{path}'"
  | .noRows position => s!"search response {position} has no rows array"
  | .elementName key => s!"key '{key}' is not a valid XML element name"

def RequestFault.message : RequestFault → String
  | .callback name => s!"callback '{name}' is not a valid function name"
  | .outputFormat name => s!"Invalid output format: {name}. Expected: json, xml, or csv"

def SettingsFault.message : SettingsFault → String
  | .emptyTerminator => "line_terminator must not be empty"
  | .unknownTransform name known =>
    let names := ", ".intercalate known
    s!"unknown transform '{name}', expected one of: {names}"

namespace Failure

/-- What kind of failure it is, in words. -/
def heading : Failure → String
  | .addressing _ => "Addressing error"
  | .format _ => "Format error"
  | .request _ => "Invalid input"
  | .settings _ => "Configuration error"
  | .input _ => "Parse error"
  | .documentText => "Serialization error"
  | .settingsText => "YAML error"
  | .settingsFile _ => "IO error"

def cause : Failure → String
  | .addressing fault => fault.message
  | .format fault => fault.message
  | .request fault => fault.message
  | .settings fault => fault.message
  | .input source => s!"Invalid JSON in {source}: not a JSON document"
  | .documentText => "not a JSON document"
  | .settingsText => "not a settings document"
  | .settingsFile name => s!"cannot read {name}"

def message (f : Failure) : String := s!"{f.heading}: {f.cause}"

/-- Three for a bad request or configuration, four for documents that do not fit the output, one
for all else. -/
def exitCode : Failure → Nat
  | .addressing _ | .request _ | .settings _ => 3
  | .format _ => 4
  | .input _ | .documentText | .settingsText | .settingsFile _ => 1

/-- Whether the request itself caused the failure. -/
def isClientError : Failure → Bool
  | .addressing _ | .format _ | .request _ => true
  | .settings _ | .input _ | .documentText | .settingsText | .settingsFile _ => false

end Failure

end DocExport
