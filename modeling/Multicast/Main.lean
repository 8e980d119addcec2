import Multicast.CommandLine.Run

/-! The program itself: it reads what is around it and prints the result. -/
namespace Multicast.CommandLine

/-- The text of a file, if there is one. -/
def fileText (path : String) : IO (Option String) :=
  try some <$> IO.FS.readFile path catch _ => pure none

/-- All environment variables. -/
def readEnvironment : IO Environment := do
  let text := (← fileText "/proc/self/environ").getD ""
  return (Split.pieces '\x00' text.toList).filterMap fun cs =>
    match cs.span (· ≠ '=') with
    | (name, _ :: value) => some (String.ofList name, String.ofList value)
    | _ => none

/-- The user's file, which lies below a directory that variables name. -/
def readUserFile (e : Environment) : IO (Option String) := do
  let home := (e.lookup "HOME").map (· ++ "/.config")
  match (e.lookup "XDG_CONFIG_HOME").or home with
  | some dir => fileText (dir ++ "/cohort/config.toml")
  | none => return none

/-- The project directory of an invocation. -/
def Invocation.dir : Invocation → String
  | .display dir _ | .run dir _ _ => dir
  | .version | .help _ | .versionOf _ => "."

def readSurroundings (args : List String) : IO Surroundings := do
  let invocation := (read? args).getD .version
  let dir := if invocation.dir = "" then "." else invocation.dir
  let environment ← readEnvironment
  let project ← fileText (dir ++ "/cohort.toml")
  let own ← fileText (dir ++ "/cohort.local.toml")
  let stdin ← IO.getStdin
  let input ← match invocation with
    | .run _ _ _ => do pure ((← stdin.readToEnd).splitOn "\n")
    | _ => pure []
  return {
    userFile := ← readUserFile environment
    projectFiles := fun _ => [project, own]
    environment
    input }

end Multicast.CommandLine

open Multicast.CommandLine in
def main (args : List String) : IO UInt32 := do
  let r := program (← readSurroundings args) args
  r.output.forM IO.println
  r.errors.forM IO.eprintln
  return UInt32.ofNat r.code
