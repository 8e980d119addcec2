import Multicast.CommandLine.Input
import Multicast.CommandLine.Pages
import Multicast.Node.Session
import Multicast.Settings.Sources
import Multicast.Text.Shown

/-! The program: what it prints for given arguments, files, variables and input lines. -/
namespace Multicast.CommandLine

/-- What the program finds around it. -/
structure Surroundings where
  userFile : Option String := none
  /-- The texts of the project's two files in a directory, that of the machine last. -/
  projectFiles : String → List (Option String) := fun _ => []
  environment : Environment := []
  /-- The lines of standard input. -/
  input : List String := []
  network : Network := .isolated 49152

/-- What the program prints, and the code that it ends with. -/
structure Result where
  code : Nat := 0
  output : List String := []
  errors : List String := []
  deriving DecidableEq, Repr

/-- The lines of a text that is printed with a line end behind it. -/
def linesOf (text : String) : List String :=
  (Split.pieces '\n' text.toList).map String.ofList

/-- A text with `first` before its first line and `others` before all others. -/
def indented (first others text : String) : List String :=
  (linesOf text).zipIdx.map fun (line, i) => (if i = 0 then first else others) ++ line

/-- An error, with the chain of its causes, which are numbered if there are more than one. -/
def failure (message : String) (causes : List String) : Result :=
  let shown := match causes with
    | [] => []
    | [cause] => indented "    " "    " cause
    | causes => causes.zipIdx.flatMap fun (cause, i) =>
        indented ("    " ++ toString i ++ ": ") "       " cause
  { code := 1
    errors := ("Error: " ++ message) :: if shown = [] then [] else ["", "Caused by:"] ++ shown }

def load (w : Surroundings) (dir : String) : Except Result Settings :=
  let sources : Sources := {
    files := w.userFile :: w.projectFiles dir
    environment := w.environment }
  sources.load.mapError fun e => failure "Failed to load configuration" e.chain

/-- A line for each event that the program prints. -/
def handlers : Handlers String where
  causalDelivered := some fun d => "[causal] " ++ d.source.text ++ ": " ++ Lossy.text d.payload
  fifoDelivered := some fun d => "[fifo] " ++ d.source.text ++ ": " ++ Lossy.text d.payload
  newView := some fun v => "[view] " ++ v.text
  abcast := some fun op => "[abcast] " ++ op.text

def Input.action : Input → Action
  | .causal text => .causal (Bytes.ofText text) .view
  | .fifo text => .fifo (Bytes.ofText text) .view
  | .join p => .join p
  | .remove p => .remove p
  | .adeliver op => .adeliver op
  | .view => .view
  | .quit => .stop

/-- The lines for what came of an action. -/
def outcomeLines : Outcome → List String
  | .view (some v) => ["[view] " ++ v.text]
  | .view none => ["[view] none yet, waiting for a state transfer"]
  | .done | .failed _ | .blocked _ | .stopped => []

def outcomeErrors : Outcome → List String
  | .failed e => ["error: " ++ ": ".intercalate e.chain]
  | .done | .view _ | .blocked _ | .stopped => []

/-- The lines for what was reported since the last look. -/
def reportLines (s : Session) : List String × Session :=
  let (reports, s) := s.collect
  (reports.filterMap fun
    | .event e => handlers.dispatch e
    | .nested _ => none, s)

/-- Prints, and goes on with the rest. -/
def Result.print (r : Result) (output errors : List String) : Result :=
  { r with output := output ++ r.output, errors := errors ++ r.errors }

/-- Obeys lines until one of them ends the program. -/
def obey (s : Session) : List String → Result
  | [] => {}
  | line :: lines =>
    match Input.read line with
    | .error e => (obey s lines).print [] ["error: " ++ e.message]
    | .ok none => obey s lines
    | .ok (some .quit) => {}
    | .ok (some input) =>
      let (outcome, s) := s.act input.action
      let (reported, s) := reportLines s
      (obey s lines).print (reported ++ outcomeLines outcome) (outcomeErrors outcome)

def run (w : Surroundings) (dir : String) (port : Option UInt16) (incarnation : Option UInt32) :
    Result :=
  match load w dir with
  | .error r => r
  | .ok settings =>
    match (settings.withIdentity port incarnation).nodeConfig with
    | .error e => failure "Invalid configuration" ((NodeError.settings e).message :: e.chain)
    | .ok config =>
      match Session.start config w.network .reports false with
      | .error e => failure "Failed to start node" e.chain
      | .ok s =>
        let (reported, s) := reportLines s
        let r := (obey s w.input).print
          (reported ++ ["Cohort node " ++ s.node.here.text ++ " is running.",
            "Type 'quit' or close stdin to stop."]) []
        { r with output := r.output ++ ["Node stopped."] }

/-- Does what the arguments ask for. Arguments that are not well formed end it with code two. -/
def respond (w : Surroundings) (args : List String) : Result :=
  match read? args with
  | none => { code := 2, errors := ["error: invalid arguments"] }
  | some .version => { output := versionPage }
  | some (.help p) => { output := p.help }
  | some (.versionOf p) => { output := [p.name ++ " " ++ release] }
  | some (.display dir format) =>
    match load w dir with
    | .error r => r
    | .ok settings => { output := settingsAs settings format }
  | some (.run dir port incarnation) => run w dir port incarnation

/-- What the program prints, line by line. -/
def program (w : Surroundings) (args : List String) : Result :=
  let r := respond w args
  { r with output := r.output.flatMap linesOf, errors := r.errors.flatMap linesOf }

/-- Whether a path names the current directory. -/
def isHere (dir : String) : Bool :=
  dir.toList.head? ≠ some '/' &&
    (Split.pieces '/' dir.toList).all fun part => part = [] || part = ['.']

end Multicast.CommandLine
