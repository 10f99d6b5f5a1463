import DocExport.CommandLine.Arguments
import DocExport.Request.Basic

/-! What a command line asks for. Options that hold for every command may stand before or after its
name. -/
namespace DocExport.CommandLine

structure RenderOptions where
  query : Option String := none
  format : Option String := none
  includeDocs : Bool := false
  keys : Option String := none
  labels : Option String := none
  delimiter : Option String := none
  callback : Option String := none
  debug : Bool := false
  unwrapRows : Bool := false
  showContentType : Bool := false
  deriving DecidableEq, Repr

/-- The request of the query, with the fields that have an option of their own set by that. -/
def RenderOptions.request (o : RenderOptions) : Request :=
  let r := (o.query.map Request.ofQuery).getD {}
  { format := o.format <|> r.format
    includeDocs := o.includeDocs || r.includeDocs
    keys := (o.keys.map Text.items).getD r.keys
    labels := (o.labels.map Text.items).getD r.labels
    delimiter := o.delimiter <|> r.delimiter
    callback := o.callback <|> r.callback
    debug := o.debug || r.debug }

inductive Command where
  | render (input : String) (options : RenderOptions)
  | flatten (input : String) (keys : Option String) (pretty : Bool)
  | project (input : String) (keys : String) (pretty : Bool)
  | get (path : String) (input : String)
  deriving DecidableEq, Repr

structure Invocation where
  command : Command
  config : Option String
  deriving DecidableEq, Repr

/-- The name of standard input as an input file. -/
def standardInput : String := "-"

def sharedOptions : List OptionSpec :=
  [⟨"config", none, .file⟩, ⟨"verbose", some 'v', .flag⟩, ⟨"help", some 'h', .help⟩]

def topGrammar : Grammar := ⟨⟨"version", some 'V', .version⟩ :: sharedOptions, 0⟩

def renderGrammar : Grammar :=
  { options := sharedOptions ++
      [⟨"query", none, .value⟩, ⟨"output-format", some 'o', .value⟩, ⟨"include-docs", none, .flag⟩,
        ⟨"export-keys", some 'k', .value⟩, ⟨"csv-labels", none, .value⟩,
        ⟨"csv-delimiter", none, .value⟩, ⟨"callback", none, .value⟩, ⟨"debug", none, .flag⟩,
        ⟨"unwrap-rows", none, .flag⟩, ⟨"show-content-type", none, .flag⟩]
    words := 1 }

/-- For commands that print some paths of each document. -/
def keysGrammar : Grammar :=
  ⟨sharedOptions ++ [⟨"keys", some 'k', .value⟩, ⟨"pretty", none, .flag⟩], 1⟩

def getGrammar : Grammar := ⟨sharedOptions, 2⟩

/-- The command of a name from the arguments after the name. -/
inductive CommandName where
  | render
  | flatten
  | project
  | get
  | help
  deriving DecidableEq, Repr

namespace CommandName

def ofText? (text : String) : Option CommandName :=
  if text = "render" then some .render
  else if text = "flatten" then some .flatten
  else if text = "project" then some .project
  else if text = "get" then some .get
  else if text = "help" then some .help
  else none

def grammar : CommandName → Grammar
  | .render => renderGrammar
  | .flatten | .project => keysGrammar
  | .get => getGrammar
  | .help => topGrammar

/-- None if an argument that the command needs is missing. -/
def command? (name : CommandName) (a : Arguments) : Option Command :=
  let input (position : Nat) : String := (a.words[position]?).getD standardInput
  match name with
  | .render => some (.render (input 0)
      { query := a.value? "query", format := a.value? "output-format"
        includeDocs := a.has "include-docs", keys := a.value? "export-keys"
        labels := a.value? "csv-labels", delimiter := a.value? "csv-delimiter"
        callback := a.value? "callback", debug := a.has "debug"
        unwrapRows := a.has "unwrap-rows", showContentType := a.has "show-content-type" })
  | .flatten => some (.flatten (input 0) (a.value? "keys") (a.has "pretty"))
  | .project => (a.value? "keys").map (.project (input 0) · (a.has "pretty"))
  | .get => (a.words[0]?).map (.get · (input 1))
  | .help => none

end CommandName

/-- The arguments before the command's name, the name, and the arguments after it. -/
def splitCommand : Arguments → List String → Except Stop (Arguments × CommandName × List String)
  | _, [] => .error .usage
  | a, text :: rest =>
    match if a.pending.isNone && !a.onlyWords then CommandName.ofText? text else none with
    | some name => .ok (a, name, rest)
    | none =>
      match a.take topGrammar text with
      | .ok a => splitCommand a rest
      | .error stop => .error stop

/-- Help on the program or on one command. -/
def helpOn : List String → Stop
  | [] => .help
  | [text] => if (CommandName.ofText? text).isSome then .help else .usage
  | _ => .usage

/-- The invocation that the arguments spell. A configuration file named after the command counts
before one named in front of it, and both count before the environment's, which is looked at on each
level that names none, and then may not be empty. -/
def Invocation.ofArguments (environment : Option String) (texts : List String) :
    Except Stop Invocation := do
  let (top, name, rest) ← splitCommand {} texts
  if name = .help then .error (helpOn rest)
  else
    let own ← Arguments.read name.grammar rest
    let unnamed := (top.value? "config").isNone || (own.value? "config").isNone
    if unnamed && environment = some "" then .error .usage
    else match name.command? own with
      | some command =>
        return ⟨command, own.value? "config" <|> top.value? "config" <|> environment⟩
      | none => .error .usage

end DocExport.CommandLine
