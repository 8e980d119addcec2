import Multicast.Membership
import Multicast.Text.Characters

/-! The lines by which a running node is driven. -/
namespace Multicast.CommandLine

inductive Input where
  | causal (text : String)
  | fifo (text : String)
  | join (p : Proc)
  | remove (p : Proc)
  | adeliver (op : MembershipOp)
  | view
  | quit
  deriving DecidableEq, Repr

inductive InputError where
  | noProcess
  | invalidProcess (s : String)
  /-- Agreed changes are additions and removals. -/
  | unknownChange (s : String)
  | unknownCommand (s : String)
  deriving DecidableEq, Repr

namespace InputError

def message : InputError → String
  | .noProcess => "expected a process id as host:port:incarnation"
  | .invalidProcess s =>
    "invalid process id '" ++ s ++ "': " ++ (IdentityError.invalidProcess s).message
  | .unknownChange s => "expected 'add' or 'remove' after adeliver, got '" ++ s ++ "'"
  | .unknownCommand s => "unknown command '" ++ s ++ "'"

end InputError

namespace Input

/-- The first word, and what follows it without the white space around. -/
def firstWord (cs : List Char) : String × List Char :=
  let (word, rest) := cs.span (· ≠ ' ')
  (String.ofList word, Blank.trim rest)

def process (cs : List Char) : Except InputError Proc :=
  if cs = [] then .error .noProcess
  else
    match Proc.ofChars? cs with
    | some p => .ok p
    | none => .error (.invalidProcess (String.ofList cs))

/-- Reads a line. A blank line says nothing. -/
def read (line : String) : Except InputError (Option Input) :=
  let cs := Blank.trim line.toList
  if cs = [] then .ok none
  else
    let (word, rest) := firstWord cs
    some <$>
      match word with
      | "causal" => .ok (.causal (String.ofList rest))
      | "fifo" => .ok (.fifo (String.ofList rest))
      | "join" => (process rest).map .join
      | "remove" => (process rest).map .remove
      | "adeliver" =>
        let (kind, rest) := firstWord rest
        match process rest with
        | .error e => .error e
        | .ok p =>
          match kind with
          | "add" => .ok (.adeliver (.add p))
          | "remove" => .ok (.adeliver (.remove p))
          | kind => .error (.unknownChange kind)
      | "view" => .ok .view
      | "quit" | "exit" => .ok .quit
      | word => .error (.unknownCommand word)

end Input

end Multicast.CommandLine
