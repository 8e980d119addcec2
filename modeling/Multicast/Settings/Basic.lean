import Multicast.Proc

/-! The settings of a node: defaults, the identities they name, and the constraints between
them. -/
namespace Multicast

structure NodeSettings where
  address : String := "127.0.0.1"
  /-- Port zero stands for any free port. -/
  port : UInt16 := 7400
  /-- Raised on every restart. -/
  incarnation : UInt32 := 0
  deriving DecidableEq, Repr

structure GroupSettings where
  /-- The first view, each member as text. An empty list means a group of one. -/
  members : List String := []
  /-- Start without a view and wait for a state transfer. -/
  join : Bool := false
  deriving DecidableEq, Repr

structure TransportSettings where
  maxFrameSize : Nat := 16777216
  bufferSize : Nat := 65536
  nodelay : Bool := true
  deriving DecidableEq, Repr

structure FifoSettings where
  /-- Unbounded without a value. -/
  maxBufferedPerSource : Option Nat := none
  deriving DecidableEq, Repr

structure CausalSettings where
  maxOutstanding : Nat := 1024
  earlyAckCapacity : Nat := 4096
  deriving DecidableEq, Repr

structure RuntimeSettings where
  commandQueueCapacity : Nat := 1024
  pollIntervalMs : Nat := 100
  /-- How often members without a connection are dialed again. -/
  reconnectIntervalMs : Nat := 1000
  deriving DecidableEq, Repr

structure Settings where
  node : NodeSettings := {}
  group : GroupSettings := {}
  transport : TransportSettings := {}
  fifo : FifoSettings := {}
  causal : CausalSettings := {}
  runtime : RuntimeSettings := {}
  deriving DecidableEq, Repr

inductive SettingsError where
  | emptyAddress
  | invalidMember (value : String) (e : IdentityError)
  | memberTwice (p : Proc)
  | hereNotListed (here : Proc)
  /-- The setting of this name is zero. -/
  | notPositive (key : String)
  | frameSizeTooLarge
  | zeroReorderLimit
  deriving DecidableEq, Repr

namespace SettingsError

/-- What is wrong, if it is not about the text of a member. -/
def constraint : SettingsError → String
  | .emptyAddress => "node.address must not be empty"
  | .invalidMember _ e => e.message
  | .memberTwice p => "group.members lists " ++ p.text ++ " twice"
  | .hereNotListed here => "group.members must include the local process " ++ here.text
  | .notPositive key => key ++ " must be greater than zero"
  | .frameSizeTooLarge => "transport.max_frame_size must fit in a u32 length prefix"
  | .zeroReorderLimit => "fifo.max_buffered_per_source must be greater than zero when set"

def message : SettingsError → String
  | .invalidMember value e =>
    "Invalid process id " ++ Quoted.quote value ++ " in configuration: " ++ e.message
  | e => "Invalid configuration: " ++ e.constraint

/-- The message, then those of its causes. -/
def chain : SettingsError → List String
  | .invalidMember value e => [message (.invalidMember value e), e.message]
  | e => [e.message]

end SettingsError

namespace Settings

/-- The local process. -/
def here (s : Settings) : Proc := ⟨s.node.address, s.node.port, s.node.incarnation⟩

def readMember (value : String) : Except SettingsError Proc :=
  (Proc.parse value).mapError (.invalidMember value)

/-- The first view. It is empty for a node that joins, whatever members are listed. -/
def initialMembers (s : Settings) : Except SettingsError (List Proc) :=
  if s.group.join then .ok []
  else if s.group.members = [] then .ok [s.here]
  else s.group.members.mapM readMember

/-- The settings that must not be zero, with their names, in the order they are checked. -/
def positives (s : Settings) : List (String × Nat) :=
  [("transport.max_frame_size", s.transport.maxFrameSize),
    ("causal.max_outstanding", s.causal.maxOutstanding),
    ("causal.early_ack_capacity", s.causal.earlyAckCapacity),
    ("runtime.command_queue_capacity", s.runtime.commandQueueCapacity)]

def requirePositive (settings : List (String × Nat)) : Except SettingsError Unit :=
  match settings.find? (·.2 = 0) with
  | some (key, _) => .error (.notPositive key)
  | none => .ok ()

/-- The constraints on the members. -/
def validateMembers (s : Settings) (members : List Proc) : Except SettingsError Unit :=
  match Proc.firstRepeated? members with
  | some p => .error (.memberTwice p)
  | none => if !s.group.join && s.here ∉ members then .error (.hereNotListed s.here) else .ok ()

def validate (s : Settings) : Except SettingsError Unit := do
  if s.node.address = "" then throw .emptyAddress
  s.validateMembers (← s.initialMembers)
  requirePositive s.positives
  if UInt32.size ≤ s.transport.maxFrameSize then throw .frameSizeTooLarge
  if s.fifo.maxBufferedPerSource = some 0 then throw .zeroReorderLimit
  requirePositive
    [("runtime.poll_interval_ms", s.runtime.pollIntervalMs),
      ("runtime.reconnect_interval_ms", s.runtime.reconnectIntervalMs)]

/-- Gives the node another identity. The entry that names the old one is changed with it, unless
the new one is listed already. -/
def withIdentity (s : Settings) (port : Option UInt16) (incarnation : Option UInt32) : Settings :=
  let changed := { s with
    node := { s.node with
      port := port.getD s.node.port
      incarnation := incarnation.getD s.node.incarnation } }
  let names (p : Proc) (value : String) : Bool := Proc.ofChars? value.toList = some p
  if s.here = changed.here || s.group.members.any (names changed.here) then changed
  else { changed with
    group := { s.group with
      members := s.group.members.map fun value =>
        if names s.here value then changed.here.text else value } }

end Settings

end Multicast
