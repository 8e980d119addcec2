import Multicast.Text.Decimal

/-! The arguments of the command line. -/
namespace Multicast.CommandLine

/-- A command, or a group of commands. -/
inductive Page where
  | top
  | version
  | config
  | display
  | run
  /-- The command of a group that shows how the others are used. -/
  | usage
  | configUsage
  deriving DecidableEq, Repr

/-- What the arguments ask for. -/
inductive Invocation where
  | version
  | display (dir format : String)
  | run (dir : String) (port : Option UInt16) (incarnation : Option UInt32)
  /-- How a command is used. -/
  | help (p : Page)
  /-- The version as a command shows it. -/
  | versionOf (p : Page)
  deriving DecidableEq, Repr

/-- An option that takes a value. -/
inductive OptionName where
  | dir
  | format
  | port
  | incarnation
  deriving DecidableEq, Repr

namespace OptionName

def long : OptionName → String
  | .dir => "project-dir"
  | .format => "format"
  | .port => "port"
  | .incarnation => "incarnation"

def short? : OptionName → Option Char
  | .dir => some 'p'
  | .format => some 'f'
  | .port | .incarnation => none

/-- The options of a command. -/
def ofPage : Page → List OptionName
  | .display => [.dir, .format]
  | .run => [.dir, .port, .incarnation]
  | .top | .version | .config | .usage | .configUsage => []

/-- A number with an optional sign. -/
def number? (top : Nat) : List Char → Option Nat
  | '-' :: cs => (Decimal.digits? cs).filter (· = 0)
  | cs => Decimal.read? top cs

/-- Whether an option takes a value. -/
def fits (o : OptionName) (value : String) : Bool :=
  match o with
  | .dir | .format => true
  | .port => (number? 65535 value.toList).isSome
  | .incarnation => (number? 4294967295 value.toList).isSome

end OptionName

/-- An argument, as a command takes it. -/
inductive Argument where
  | help
  | version
  | option (o : OptionName) (value : String)
  deriving DecidableEq, Repr

/-- The option that a long name stands for. -/
def ofLong? (p : Page) (name : String) : Option OptionName :=
  (OptionName.ofPage p).find? (·.long = name)

def ofShort? (p : Page) (c : Char) : Option OptionName :=
  (OptionName.ofPage p).find? (·.short? = some c)

/-- Whether an argument can be the value of the option before it. -/
def isValue (arg : String) : Bool := arg = "-" || arg.toList.head? ≠ some '-'

/-- Takes the value of an option from the next argument. -/
def withNext (o : OptionName) : List String → Option (Argument × List String)
  | value :: rest => if isValue value then some (.option o value, rest) else none
  | [] => none

/-- Takes one argument of a command off the front. -/
def next (p : Page) (arg : String) (rest : List String) : Option (Argument × List String) :=
  match arg.toList with
  | '-' :: '-' :: name =>
    if name = "help".toList then some (.help, rest)
    else if name = "version".toList then some (.version, rest)
    else
      match name.span (· ≠ '=') with
      | (name, []) => (ofLong? p (String.ofList name)).bind (withNext · rest)
      | (name, _ :: value) =>
        (ofLong? p (String.ofList name)).map fun o => (.option o (String.ofList value), rest)
  | '-' :: 'h' :: _ => some (.help, rest)
  | '-' :: 'V' :: _ => some (.version, rest)
  | '-' :: c :: value => do
    let o ← ofShort? p c
    match value with
    | [] => withNext o rest
    | '=' :: value => some (.option o (String.ofList value), rest)
    | value => some (.option o (String.ofList value), rest)
  | _ => none

/-- The values of a command's options, or what it shows instead. Behind two dashes, only values that
no command takes could follow. -/
def options (p : Page) : Nat → List (OptionName × String) → List String →
    Option (Except Invocation (List (OptionName × String)))
  | _, given, [] | _, given, ["--"] => some (.ok given)
  | 0, _, _ => none
  | fuel + 1, given, arg :: rest => do
    let (a, rest) ← next p arg rest
    match a with
    | .help => some (.error (.help p))
    | .version => some (.error (.versionOf p))
    | .option o value =>
      if given.any (·.1 = o) || !o.fits value then none
      else options p fuel ((o, value) :: given) rest

/-- What the options of a command ask for. -/
def ofOptions (p : Page) (given : List (OptionName × String)) : Invocation :=
  let value (o : OptionName) : Option String := (given.find? (·.1 = o)).map (·.2)
  let number (o : OptionName) (top : Nat) : Option Nat :=
    (value o).bind fun s => OptionName.number? top s.toList
  let dir := (value .dir).getD "."
  match p with
  | .display => .display dir ((value .format).getD "text")
  | .run =>
    .run dir ((number .port 65535).map UInt16.ofNat)
      ((number .incarnation 4294967295).map UInt32.ofNat)
  | .top | .version | .config | .usage | .configUsage => .version

/-- The commands of a group, by name. -/
def subcommand? (p : Page) (name : String) : Option Page :=
  match p with
  | .top =>
    [("version", .version), ("config", .config), ("run", .run), ("help", .usage)].lookup name
  | .config => [("show", .display), ("help", .configUsage)].lookup name
  | .version | .display | .run | .usage | .configUsage => none

/-- The command whose help is asked for. -/
def helpPage? (p : Page) : List String → Option Page
  | [] => some p
  | name :: rest => (subcommand? p name).bind (helpPage? · rest)

/-- Reads the arguments of a command. A group of commands needs the name of one. -/
def ofCommand? (p : Page) (args : List String) : Option Invocation :=
  match options p args.length [] args with
  | some (.ok given) => some (ofOptions p given)
  | some (.error i) => some i
  | none => none

/-- Reads the arguments of a group of commands. -/
def ofGroup? (p : Page) (command : Page → List String → Option Invocation) :
    List String → Option Invocation
  | [] => none
  | "help" :: rest => (helpPage? p rest).map .help
  | arg :: rest =>
    match subcommand? p arg with
    | some q => command q rest
    | none =>
      match next p arg rest with
      | some (.help, _) => some (.help p)
      | some (.version, _) => some (.versionOf p)
      | _ => none

/-- What the arguments ask for, if they are well formed. -/
def read? : List String → Option Invocation :=
  ofGroup? .top fun p args =>
    match p with
    | .config => ofGroup? .config ofCommand? args
    | p => ofCommand? p args

end Multicast.CommandLine
