import FilterQuery.CommandLine
import FilterQuery.Pattern.Regex
set_option autoImplicit false

/-!
The command line program: reads the arguments, the environment, the configuration file and the
standard input, and prints what comes of them.
-/

namespace FilterQuery

def environmentNames : List String :=
  ["QFILTER_NAMING", "QFILTER_VALIDATION", "QFILTER_IDENTIFIER_RESOLUTION",
    "QFILTER_REGEX_OPERATOR"]

def readEnvironment : IO Environment := do
  let mut env : Environment := []
  for name in environmentNames do
    if let some value ← IO.getEnv name then
      env := (name.toList, value.toList) :: env
  return env

def readContent (path : Text) : IO CommandLine.FileContent := do
  try
    return .ok (← IO.FS.readFile (String.ofList path)).toList
  catch e =>
    return .error (toString e).toList

/-- Carries a command out with the estimate of which patterns are regexes. -/
def outcome (c : Command) (env : Environment) (file : CommandLine.FileContent) (input : Text) :
    Outcome :=
  letI : Regex.Engine := ⟨Regex.isValid⟩
  CommandLine.run c env file input

end FilterQuery

open FilterQuery in
def main (args : List String) : IO UInt32 := do
  match Command.read (args.map String.toList) with
  | none =>
    IO.eprintln "usage: compile | parse | validate | repair [options] [filter]"
    return 2
  | some command =>
    let file ← match command.configPath with
      | some path => readContent path
      | none => pure (.ok [])
    let input ← match command.filter with
      | some _ => pure ""
      | none => (← IO.getStdin).readToEnd
    let outcome := outcome command (← readEnvironment) file input.toList
    IO.print (String.ofList outcome.output)
    IO.eprint (String.ofList outcome.errors)
    return outcome.code.toUInt32
