import Multicast.Settings.Basic
import Multicast.Toml.Quoted

/-! Settings as text. -/
namespace Multicast

/-- The value of a setting. -/
inductive Field where
  | number (n : Nat)
  | flag (b : Bool)
  | text (s : String)
  | texts (ss : List String)
  | absent
  deriving DecidableEq, Repr

/-- A section's name, and its settings by name. -/
abbrev Section := String × List (String × Field)

/-- All settings, in the order they are shown. -/
def Settings.sections (s : Settings) : List Section :=
  [("node", [
      ("address", .text s.node.address),
      ("port", .number s.node.port.toNat),
      ("incarnation", .number s.node.incarnation.toNat)]),
    ("group", [
      ("members", .texts s.group.members),
      ("join", .flag s.group.join)]),
    ("transport", [
      ("max_frame_size", .number s.transport.maxFrameSize),
      ("buffer_size", .number s.transport.bufferSize),
      ("nodelay", .flag s.transport.nodelay)]),
    ("fifo", [
      ("max_buffered_per_source", (s.fifo.maxBufferedPerSource.map Field.number).getD .absent)]),
    ("causal", [
      ("max_outstanding", .number s.causal.maxOutstanding),
      ("early_ack_capacity", .number s.causal.earlyAckCapacity)]),
    ("runtime", [
      ("command_queue_capacity", .number s.runtime.commandQueueCapacity),
      ("poll_interval_ms", .number s.runtime.pollIntervalMs),
      ("reconnect_interval_ms", .number s.runtime.reconnectIntervalMs)])]

namespace Toml

/-- A list of two or more texts has a line for each. -/
def texts : List String → String
  | [] => "[]"
  | [s] => "[" ++ quote s ++ "]"
  | ss => "[\n" ++ String.join (ss.map fun s => "    " ++ quote s ++ ",\n") ++ "]"

/-- A line for a setting that has a value. -/
def line (entry : String × Field) : String :=
  match entry.2 with
  | .number n => entry.1 ++ " = " ++ toString n ++ "\n"
  | .flag b => entry.1 ++ " = " ++ toString b ++ "\n"
  | .text s => entry.1 ++ " = " ++ quote s ++ "\n"
  | .texts ss => entry.1 ++ " = " ++ texts ss ++ "\n"
  | .absent => ""

/-- A table for each section, with blank lines between them. -/
def render (sections : List Section) : String :=
  "\n".intercalate
    (sections.map fun (name, entries) => "[" ++ name ++ "]\n" ++ String.join (entries.map line))

end Toml

namespace Json

def escape (c : Char) : List Char :=
  match c with
  | '"' => ['\\', '"']
  | '\\' => ['\\', '\\']
  | '\n' => ['\\', 'n']
  | '\r' => ['\\', 'r']
  | '\t' => ['\\', 't']
  | '\x08' => ['\\', 'b']
  | '\x0c' => ['\\', 'f']
  | c =>
    if c.toNat < 32 then ['\\', 'u', '0', '0'] ++ (Nat.toDigits 16 (256 + c.toNat)).drop 1 else [c]

def quote (s : String) : String := String.ofList ('"' :: s.toList.flatMap escape ++ ['"'])

/-- The lines between an opening and a closing bracket, a comma behind all but the last. -/
def block (indent opening closing : String) (inner : List String) : String :=
  opening ++ "\n" ++ ",\n".intercalate (inner.map (indent ++ "  " ++ ·)) ++ "\n" ++ indent ++ closing

def field (indent : String) : Field → String
  | .number n => toString n
  | .flag b => toString b
  | .text s => quote s
  | .texts [] => "[]"
  | .texts ss => block indent "[" "]" (ss.map quote)
  | .absent => "null"

/-- An object for each section, indented by two blanks a level. -/
def render (sections : List Section) : String :=
  block "" "\x7b" "\x7d" (sections.map fun (name, entries) =>
    quote name ++ ": " ++
      block "  " "\x7b" "\x7d" (entries.map fun (key, f) => quote key ++ ": " ++ field "    " f))

end Json

def Settings.toToml (s : Settings) : String := Toml.render s.sections

def Settings.toJson (s : Settings) : String := Json.render s.sections

end Multicast
