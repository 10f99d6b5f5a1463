/-! Options and words of one level of a command line. Arguments are taken one by one, and reading
stops at the first that is wrong or that asks for help or the version. -/
namespace DocExport.CommandLine

/-- Why reading stops before there is anything to run. -/
inductive Stop where
  | usage
  | help
  | version
  deriving DecidableEq, Repr

inductive OptionKind where
  | flag
  | value
  /-- A value that may not be empty. -/
  | file
  | help
  | version
  deriving DecidableEq, Repr

structure OptionSpec where
  name : String
  letter : Option Char
  kind : OptionKind
  deriving DecidableEq, Repr

/-- The options of a level and how many words it takes. -/
structure Grammar where
  options : List OptionSpec
  words : Nat

structure Arguments where
  values : List (String × String) := []
  flags : List String := []
  words : List String := []
  /-- The option whose value comes next. -/
  pending : Option OptionSpec := none
  /-- Whether all that follows is words. -/
  onlyWords : Bool := false
  deriving DecidableEq, Repr

namespace Arguments

def value? (a : Arguments) (name : String) : Option String := a.values.lookup name

def has (a : Arguments) (flag : String) : Bool := a.flags.contains flag

/-- No option is left waiting for its value. -/
def settled (a : Arguments) : Except Stop Arguments :=
  if a.pending.isSome then .error .usage else .ok a

/-- An option is given once at most. -/
def setValue (a : Arguments) (spec : OptionSpec) (value : String) : Except Stop Arguments :=
  if (a.value? spec.name).isSome || (spec.kind = .file && value.isEmpty) then .error .usage
  else .ok { a with values := a.values ++ [(spec.name, value)], pending := none }

def setFlag (a : Arguments) (spec : OptionSpec) : Except Stop Arguments :=
  match spec.kind with
  | .help => .error .help
  | .version => .error .version
  | _ =>
    if a.has spec.name then .error .usage else .ok { a with flags := a.flags ++ [spec.name] }

/-- An option with its value, if that is attached to it. -/
def option (a : Arguments) (spec : OptionSpec) (attached : Option String) :
    Except Stop Arguments := do
  let a ← a.settled
  match spec.kind, attached with
  | .value, some value | .file, some value => a.setValue spec value
  | .value, none | .file, none => return { a with pending := some spec }
  | _, some _ => .error .usage
  | _, none => a.setFlag spec

/-- Two dashes and a name; a value may follow an equals sign. -/
def longOption (g : Grammar) (a : Arguments) (text : List Char) : Except Stop Arguments :=
  let name := String.ofList (text.takeWhile (· ≠ '='))
  let attached := match text.dropWhile (· ≠ '=') with
    | [] => none
    | _ :: value => some (String.ofList value)
  match g.options.find? (·.name = name) with
  | some spec => a.option spec attached
  | none => .error .usage

/-- One dash and letters. What follows the letter of an option with a value is that value, less an
equals sign in front. -/
def letterOptions (g : Grammar) (a : Arguments) : List Char → Except Stop Arguments
  | [] => .ok a
  | c :: rest =>
    match g.options.find? (·.letter = some c) with
    | none => .error .usage
    | some spec =>
      if spec.kind = .value ∨ spec.kind = .file then
        match rest with
        | [] => a.option spec none
        | '=' :: value => a.option spec (some (String.ofList value))
        | value => a.option spec (some (String.ofList value))
      else do letterOptions g (← a.option spec none) rest

/-- A word is the value of the option that waits for one, or stands for itself. -/
def word (g : Grammar) (a : Arguments) (text : String) : Except Stop Arguments :=
  match a.pending with
  | some spec => if a.onlyWords then .error .usage else a.setValue spec text
  | none =>
    if a.words.length < g.words then .ok { a with words := a.words ++ [text] }
    else .error .usage

/-- One more argument. A dash alone is a word. -/
def take (g : Grammar) (a : Arguments) (text : String) : Except Stop Arguments :=
  if a.onlyWords then a.word g text
  else match text.toList with
    | ['-', '-'] => .ok { a with onlyWords := true }
    | '-' :: '-' :: long => a.longOption g long
    | '-' :: c :: letters => a.letterOptions g (c :: letters)
    | _ => a.word g text

def read (g : Grammar) (texts : List String) : Except Stop Arguments := do
  (← texts.foldlM (take g) {}).settled

end Arguments

end DocExport.CommandLine
