import DocExport.CommandLine.Session

/-! The program: it gathers what a run can see, runs, and prints. -/
namespace DocExport.CommandLine

def readFile? (name : String) : IO (Option String) := do
  try return some (← IO.FS.readFile name) catch _ => return none

def readStandardInput? : IO (Option String) := do
  return String.fromUTF8? (← (← IO.getStdin).readBinToEnd)

/-- Names of the files that a run may read. -/
def fileNames (configVariable : Option String) (defaultConfig : String) (texts : List String) :
    List String :=
  match Invocation.ofArguments configVariable texts with
  | .error _ => []
  | .ok invocation =>
    let input := match invocation.command with
      | .render input _ | .flatten input _ _ | .project input _ _ | .get _ input => input
    [input, invocation.config.getD defaultConfig]

def surroundings (texts : List String) : IO Surroundings := do
  let home := (← IO.getEnv "HOME").getD "."
  let folder := (← IO.getEnv "XDG_CONFIG_HOME").getD (home ++ "/.config")
  let defaultConfig := folder ++ "/docshape/config.yml"
  let configVariable ← IO.getEnv "DOCSHAPE_CONFIG"
  let names := fileNames configVariable defaultConfig texts
  let files ← names.mapM fun name => return (name, ← readFile? name)
  let input? ← if names.contains standardInput then readStandardInput? else pure none
  let transformVariable ← IO.getEnv "DOCSHAPE_TRANSFORM"
  let hasDefaultConfig ← (System.mkFilePath [defaultConfig]).pathExists
  return { file? := fun name => (files.lookup name).join
           input?, defaultConfig, hasDefaultConfig, configVariable, transformVariable }

end DocExport.CommandLine

def main (texts : List String) : IO UInt32 := do
  let ending := DocExport.CommandLine.run (← DocExport.CommandLine.surroundings texts) texts
  IO.eprint ending.notice
  IO.print ending.output
  return ending.exitCode.toUInt32
