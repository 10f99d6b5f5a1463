import DocExport.CommandLine.Invocation
import DocExport.Document.Envelope
import DocExport.Renderer
import DocExport.Settings.Reader

/-! One run of a command. All that it reads is in its surroundings, and it prints either
everything or nothing, so a run that fails leaves standard output empty. -/
namespace DocExport.CommandLine

/-- What a run can see: files by name, standard input if it is text, and two variables. -/
structure Surroundings where
  file? : String → Option String
  input? : Option String
  /-- The configuration file that is read if none is named and it is there. -/
  defaultConfig : String
  /-- Whether anything stands under that name, be it no text. -/
  hasDefaultConfig : Bool := false
  configVariable : Option String
  transformVariable : Option String

/-- Why a run fails. -/
inductive Fault where
  | failure (failure : Failure)
  /-- Input that cannot be read, by the name it is shown under. -/
  | unreadable (source : String)
  deriving DecidableEq, Repr

def Fault.message : Fault → String
  | .failure f => f.message
  | .unreadable source => s!"Failed to read {source}"

def Fault.exitCode : Fault → Nat
  | .failure f => f.exitCode
  | .unreadable _ => 1

/-- What a run prints. -/
structure Printed where
  output : String
  /-- For standard error. -/
  notice : String := ""
  deriving DecidableEq, Repr

/-- The documents of an input: the items of an array, or the one document that it is. -/
def documentsOf : Document → List Document
  | .array docs => docs
  | d => [d]

def readDocuments (s : Surroundings) (input : String) : Except Fault (List Document) := do
  let text ←
    if input = standardInput then s.input?.elim (.error (.unreadable "stdin")) .ok
    else (s.file? input).elim (.error (.unreadable input)) .ok
  match Document.ofJson? text with
  | some d => return documentsOf d
  | none => .error (.failure (.input input))

/-- The settings in force: of the named file, which has to be there, or of the default one. Either is an error
if it cannot be read. -/
def loadSettings (s : Surroundings) (config : Option String) : Except Failure Settings := do
  let text ← match config with
    | some name => (s.file? name).elim (.error (.settingsFile name)) (.ok ∘ some)
    | none => match s.file? s.defaultConfig with
      | some text => .ok (some text)
      | none => if s.hasDefaultConfig then .error (.settingsFile s.defaultConfig) else .ok none
  let settings ← match text with
    | some text => (Settings.ofText? text).elim (.error .settingsText) .ok
    | none => .ok {}
  return settings.withTransform s.transformVariable

/-- One document a line. -/
def printDocuments (pretty : Bool) (docs : List Document) : Printed :=
  ⟨String.join (docs.map fun d => (if pretty then d.indented else d.compact) ++ "\n"), ""⟩

def runRender (s : Surroundings) (config : Option String) (input : String) (o : RenderOptions) :
    Except Fault Printed := do
  let settings ← (loadSettings s config).mapError .failure
  let renderer ← (Renderer.ofSettings .builtIn settings).mapError (.failure ∘ .settings)
  let docs ← readDocuments s input
  let docs ←
    if o.unwrapRows then (Document.unwrapRows docs).mapError (.failure ∘ .format) else .ok docs
  let response ← (renderer.render o.request docs).mapError .failure
  return ⟨response.body,
    if o.showContentType then s!"Content-Type: {response.contentType}\n" else ""⟩

def runFlatten (s : Surroundings) (input : String) (keys : Option String) (pretty : Bool) :
    Except Fault Printed := do
  let docs ← readDocuments s input
  let rows ← (Document.toRows ((keys.map Text.items).getD []) docs).mapError
    (.failure ∘ .format)
  return printDocuments pretty (rows.map .ofRow)

def runProject (s : Surroundings) (input keys : String) (pretty : Bool) :
    Except Fault Printed := do
  let docs ← readDocuments s input
  let projected ← (Document.restrictAll (Text.items keys) docs).mapError (.failure ∘ .addressing)
  return printDocuments pretty projected

def runGet (s : Surroundings) (path input : String) : Except Fault Printed := do
  let docs ← readDocuments s input
  let found ← (docs.mapM fun (d : Document) => d.get (Path.ofText path)).mapError
    (.failure ∘ .addressing)
  return printDocuments false (found.map (·.getD .null))

/-- Only rendering depends on the configuration. -/
def runCommand (s : Surroundings) (invocation : Invocation) : Except Fault Printed :=
  match invocation.command with
  | .render input options => runRender s invocation.config input options
  | .flatten input keys pretty => runFlatten s input keys pretty
  | .project input keys pretty => runProject s input keys pretty
  | .get path input => runGet s path input

/-- How a run ends. -/
inductive Ending where
  | printed (printed : Printed)
  | faulty (fault : Fault)
  | stopped (stop : Stop)
  deriving DecidableEq, Repr

def run (s : Surroundings) (texts : List String) : Ending :=
  match Invocation.ofArguments s.configVariable texts with
  | .error stop => .stopped stop
  | .ok invocation =>
    match runCommand s invocation with
    | .ok printed => .printed printed
    | .error fault => .faulty fault

namespace Ending

def versionText : String := "docshape 0.1.0\n"

def helpText : String :=
  "Render search result documents as JSON, CSV or XML\n\n" ++
  "Usage: docshape [--config <CONFIG>] [-v] <render|flatten|project|get> ...\n"

def exitCode : Ending → Nat
  | .printed _ => 0
  | .faulty fault => fault.exitCode
  | .stopped .usage => 2
  | .stopped _ => 0

def output : Ending → String
  | .printed p => p.output
  | .faulty _ => ""
  | .stopped .usage => ""
  | .stopped .help => helpText
  | .stopped .version => versionText

/-- For standard error. -/
def notice : Ending → String
  | .printed p => p.notice
  | .faulty fault => s!"Error: {fault.message}\n"
  | .stopped .usage => helpText
  | .stopped _ => ""

end Ending

end DocExport.CommandLine
