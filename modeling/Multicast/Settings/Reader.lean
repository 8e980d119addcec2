import Multicast.Double.Shortest
import Multicast.Settings.Basic
import Multicast.Settings.Value

/-! Reading settings off a tree. What is missing takes its default, what is unknown is ignored. -/
namespace Multicast

/-- Which values fit a setting. -/
structure FieldRules where
  /-- A number up to the given one. -/
  number? : Nat → Value → Option Nat
  flag? : Value → Option Bool
  text? : Value → Option String
  /-- Whether a list may be longer than the section it stands for. -/
  allowsExcess : Bool

namespace FieldRules

/-- A value fits only a setting of its own type. -/
def strict : FieldRules where
  number? top
    | .whole n => if 0 ≤ n ∧ n.toNat ≤ top then some n.toNat else none
    | _ => none
  flag?
    | .flag b => some b
    | _ => none
  text?
    | .text s => some s
    | _ => none
  allowsExcess := false

def asciiLower (s : String) : String := s.map Char.toLower

/-- Words for a truth value. -/
def word? (s : String) : Option Bool :=
  if s ∈ ["true", "on", "yes"] then some true
  else if s ∈ ["false", "off", "no"] then some false
  else none

/-- Truth values, numbers and texts stand for one another where the text reads as the other. -/
def lenient : FieldRules where
  number? top v :=
    Option.filter (· ≤ top) <|
      match v with
      | .whole n => if 0 ≤ n then some n.toNat else none
      | .flag b => some b.toNat
      | .double x => some (x.toNat (UInt64.size - 1))
      | .text s =>
        match word? (asciiLower s) with
        | some b => some b.toNat
        | none => Decimal.read? (UInt64.size - 1) s.toList
      | _ => none
  flag?
    | .flag b => some b
    | .whole n => some (n ≠ 0)
    | .double x => some (!x.isZero)
    | .text s =>
      if s = "1" then some true else if s = "0" then some false else word? (asciiLower s)
    | _ => none
  text?
    | .text s => some s
    | .flag b => some (toString b)
    | .whole n => some (toString n)
    | .double x => some x.text
    | _ => none
  allowsExcess := true

/-- The settings of a section by name. A list gives them in order. -/
def section? (r : FieldRules) (names : List String) : Value → Option (Table String Value)
  | .table es => some es
  | .list vs =>
    if r.allowsExcess || vs.length ≤ names.length then some (names.zip vs) else none
  | _ => none

/-- A setting of a section, or its default. -/
def field {α : Type} (t : Table String Value) (key : String) (default : α)
    (read : Value → Option α) : Option α :=
  match t.get? key with
  | some v => read v
  | none => some default

def texts? (r : FieldRules) : Value → Option (List String)
  | .list vs => vs.mapM r.text?
  | _ => none

/-- A number that may be left out. -/
def limit? (r : FieldRules) (top : Nat) : Value → Option (Option Nat)
  | .absent => some none
  | v => (r.number? top v).map some

def node (r : FieldRules) (v : Value) : Option NodeSettings := do
  let t ← r.section? ["address", "port", "incarnation"] v
  let d : NodeSettings := {}
  let address ← field t "address" d.address r.text?
  let port ← field t "port" d.port.toNat (r.number? 65535)
  let incarnation ← field t "incarnation" d.incarnation.toNat (r.number? 4294967295)
  return ⟨address, UInt16.ofNat port, UInt32.ofNat incarnation⟩

def group (r : FieldRules) (v : Value) : Option GroupSettings := do
  let t ← r.section? ["members", "join"] v
  let d : GroupSettings := {}
  let members ← field t "members" d.members r.texts?
  let join ← field t "join" d.join r.flag?
  return ⟨members, join⟩

/-- Sizes and counts have 64 bits. -/
def size? (r : FieldRules) : Value → Option Nat := r.number? (UInt64.size - 1)

def transport (r : FieldRules) (v : Value) : Option TransportSettings := do
  let t ← r.section? ["max_frame_size", "buffer_size", "nodelay"] v
  let d : TransportSettings := {}
  let maxFrameSize ← field t "max_frame_size" d.maxFrameSize r.size?
  let bufferSize ← field t "buffer_size" d.bufferSize r.size?
  let nodelay ← field t "nodelay" d.nodelay r.flag?
  return ⟨maxFrameSize, bufferSize, nodelay⟩

def fifo (r : FieldRules) (v : Value) : Option FifoSettings := do
  let t ← r.section? ["max_buffered_per_source"] v
  let d : FifoSettings := {}
  let limit ← field t "max_buffered_per_source" d.maxBufferedPerSource (r.limit? (UInt64.size - 1))
  return ⟨limit⟩

def causal (r : FieldRules) (v : Value) : Option CausalSettings := do
  let t ← r.section? ["max_outstanding", "early_ack_capacity"] v
  let d : CausalSettings := {}
  let maxOutstanding ← field t "max_outstanding" d.maxOutstanding r.size?
  let earlyAckCapacity ← field t "early_ack_capacity" d.earlyAckCapacity r.size?
  return ⟨maxOutstanding, earlyAckCapacity⟩

def runtime (r : FieldRules) (v : Value) : Option RuntimeSettings := do
  let t ← r.section? ["command_queue_capacity", "poll_interval_ms", "reconnect_interval_ms"] v
  let d : RuntimeSettings := {}
  let commandQueueCapacity ← field t "command_queue_capacity" d.commandQueueCapacity r.size?
  let pollIntervalMs ← field t "poll_interval_ms" d.pollIntervalMs r.size?
  let reconnectIntervalMs ← field t "reconnect_interval_ms" d.reconnectIntervalMs r.size?
  return ⟨commandQueueCapacity, pollIntervalMs, reconnectIntervalMs⟩

end FieldRules

/-- Reads settings, unless a value does not fit. -/
def Settings.read? (r : FieldRules) (v : Value) : Option Settings := do
  let t ← r.section? ["node", "group", "transport", "fifo", "causal", "runtime"] v
  let node ← FieldRules.field t "node" {} r.node
  let group ← FieldRules.field t "group" {} r.group
  let transport ← FieldRules.field t "transport" {} r.transport
  let fifo ← FieldRules.field t "fifo" {} r.fifo
  let causal ← FieldRules.field t "causal" {} r.causal
  let runtime ← FieldRules.field t "runtime" {} r.runtime
  return ⟨node, group, transport, fifo, causal, runtime⟩

end Multicast
