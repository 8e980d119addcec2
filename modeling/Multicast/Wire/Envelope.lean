import Multicast.Order.Layer
import Multicast.View
import Multicast.Wire.Varint

/-! Envelopes: the payload of a frame, a packet tagged with the layer it belongs to. -/
namespace Multicast

inductive Envelope where
  | fifo (packet : FifoPacket)
  | causal (packet : CausalPacket)
  | state (transfer : StateTransfer)
  deriving DecidableEq, Repr

namespace Wire

def text (s : String) : Bytes :=
  let bs := Bytes.ofText s
  Varint.encode bs.length ++ bs

def payload (bs : Bytes) : Bytes := Varint.encode bs.length ++ bs

def process (p : Proc) : Bytes :=
  text p.address ++ Varint.encode p.port.toNat ++ Varint.encode p.incarnation.toNat

def processes (ps : List Proc) : Bytes := Varint.encode ps.length ++ ps.flatMap process

def messageId (i : MessageId) : Bytes := process i.sender ++ Varint.encode i.sequence

def fifoPacket (p : FifoPacket) : Bytes := Varint.encode p.sequence ++ payload p.payload

def causalPacket : CausalPacket → Bytes
  | .send id destinations bs =>
    Varint.encode 0 ++ messageId id ++ processes destinations ++ payload bs
  | .ack id => Varint.encode 1 ++ messageId id

def stateTransfer (t : StateTransfer) : Bytes :=
  Varint.encode t.viewId ++ processes t.members ++ processes t.added

/-- Takes a counted run of bytes. -/
def readPayload : Reader Bytes := fun bs => do
  let (len, bs) ← Varint.read 64 bs
  if bs.length < len then throw .endOfBuffer
  return (bs.take len, bs.drop len)

def readText : Reader String := fun bs => do
  let (bytes, bs) ← readPayload bs
  match Bytes.text? bytes with
  | some s => return (s, bs)
  | none => throw .badText

def readProcess : Reader Proc := fun bs => do
  let (address, bs) ← readText bs
  let (port, bs) ← Varint.read 16 bs
  let (incarnation, bs) ← Varint.read 32 bs
  return (⟨address, UInt16.ofNat port, UInt32.ofNat incarnation⟩, bs)

/-- Takes so many processes, one after another. -/
def readMany : Nat → Reader (List Proc)
  | 0, bs => .ok ([], bs)
  | n + 1, bs => do
    let (p, bs) ← readProcess bs
    let (ps, bs) ← readMany n bs
    return (p :: ps, bs)

def readProcesses : Reader (List Proc) := fun bs => do
  let (count, bs) ← Varint.read 64 bs
  readMany count bs

def readMessageId : Reader MessageId := fun bs => do
  let (sender, bs) ← readProcess bs
  let (sequence, bs) ← Varint.read 64 bs
  return (⟨sender, sequence⟩, bs)

def readFifoPacket : Reader FifoPacket := fun bs => do
  let (sequence, bs) ← Varint.read 64 bs
  let (payload, bs) ← readPayload bs
  return (⟨sequence, payload⟩, bs)

def readCausalPacket : Reader CausalPacket := fun bs => do
  let (variant, bs) ← Varint.read 32 bs
  match variant with
  | 0 =>
    let (id, bs) ← readMessageId bs
    let (destinations, bs) ← readProcesses bs
    let (payload, bs) ← readPayload bs
    return (.send id destinations payload, bs)
  | 1 =>
    let (id, bs) ← readMessageId bs
    return (.ack id, bs)
  | _ => throw .unknownVariant

def readStateTransfer : Reader StateTransfer := fun bs => do
  let (viewId, bs) ← Varint.read 64 bs
  let (members, bs) ← readProcesses bs
  let (added, bs) ← readProcesses bs
  return (⟨viewId, members, added⟩, bs)

end Wire

namespace Envelope

/-- The name of the layer. -/
def kind : Envelope → String
  | .fifo _ => "fifo"
  | .causal _ => "causal"
  | .state _ => "state"

def encode : Envelope → Bytes
  | .fifo packet => Varint.encode 0 ++ Wire.fifoPacket packet
  | .causal packet => Varint.encode 1 ++ Wire.causalPacket packet
  | .state transfer => Varint.encode 2 ++ Wire.stateTransfer transfer

/-- An envelope and the bytes behind it. -/
def read : Reader Envelope := fun bs => do
  let (variant, bs) ← Varint.read 32 bs
  match variant with
  | 0 =>
    let (packet, bs) ← Wire.readFifoPacket bs
    return (.fifo packet, bs)
  | 1 =>
    let (packet, bs) ← Wire.readCausalPacket bs
    return (.causal packet, bs)
  | 2 =>
    let (transfer, bs) ← Wire.readStateTransfer bs
    return (.state transfer, bs)
  | _ => throw .unknownVariant

/-- Bytes behind the envelope are ignored. -/
def decode (bs : Bytes) : Except WireError Envelope := (read bs).map (·.1)

end Envelope

end Multicast
