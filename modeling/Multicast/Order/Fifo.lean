import Multicast.Ascending
import Multicast.Order.Layer
import Multicast.Table

/-! The FIFO layer: payloads of one sender are delivered in the order it sent them. -/
namespace Multicast

/-- How far the stream from one source has come. -/
structure FifoSource where
  /-- The number of the next packet to deliver. -/
  expected : Nat := 0
  /-- Packets that came before their turn, by ascending number. -/
  buffer : List (Nat × Bytes) := []
  deriving DecidableEq, Repr

structure FifoStats where
  sent : Nat := 0
  delivered : Nat := 0
  /-- Packets that came before their turn. -/
  reordered : Nat := 0
  /-- Packets dropped because they had come before. -/
  duplicates : Nat := 0
  deriving DecidableEq, Repr

structure FifoLayer where
  /-- The local process. -/
  here : Proc
  /-- Most packets of one source kept for their turn; without it, any number is kept. -/
  limit : Option Nat := none
  initialized : Bool := false
  members : List Proc := []
  /-- The number of the next packet to each destination. -/
  sent : Table Proc Nat := []
  sources : Table Proc FifoSource := []
  stats : FifoStats := {}
  deriving DecidableEq, Repr

abbrev FifoOutput := Output FifoPacket

namespace FifoSource

def holds (s : FifoSource) (sequence : Nat) : Bool := s.buffer.any (·.1 = sequence)

/-- Releases the packets at the front of the buffer whose turn has come. -/
def drain (expected : Nat) : List (Nat × Bytes) → List Bytes × FifoSource
  | [] => ([], ⟨expected, []⟩)
  | (n, payload) :: buffer =>
    if n = expected then
      let (payloads, s) := drain (expected + 1) buffer
      (payload :: payloads, s)
    else ([], ⟨expected, (n, payload) :: buffer⟩)

/-- Keeps a packet for its turn. -/
def keep (s : FifoSource) (packet : FifoPacket) : FifoSource :=
  { s with
    buffer := insertAscending (fun a b => lexicographic [a.1] [b.1])
      (packet.sequence, packet.payload) s.buffer }

end FifoSource

namespace FifoLayer

/-- Starts every member at number zero in both directions. -/
def init (l : FifoLayer) (members : List Proc) : Except OrderError (FifoOutput × FifoLayer) :=
  if l.initialized then .error .alreadyInitialized
  else
    match Proc.firstRepeated? members with
    | some p => .error (.duplicateMember p)
    | none =>
      .ok ({ directives := [members] },
        { l with
          initialized := true
          members
          sent := members.map (·, 0)
          sources := members.map (·, {}) })

/-- Numbers a payload once for each destination. All destinations are checked before any number
is used. The local process is a destination like any other. -/
def send (l : FifoLayer) (payload : Bytes) (destinations : List Proc) :
    Except OrderError (FifoOutput × FifoLayer) :=
  if !l.initialized then .error .notInitialized
  else if destinations = [] then .error .noDestinations
  else
    let destinations := Proc.firsts destinations
    match destinations.find? (!l.sent.has ·) with
    | some p => .error (.unknownProcess p)
    | none =>
      .ok ({ sends := destinations.map fun p => ⟨p, (l.sent.get? p).getD 0, payload⟩ },
        { l with
          sent := l.sent.map fun e => if e.1 ∈ destinations then (e.1, e.2 + 1) else e
          stats := { l.stats with sent := l.stats.sent + destinations.length } })

/-- Delivers a packet whose turn it is with all that waited for it, keeps one that came early and
drops one that came before. -/
def deliver (l : FifoLayer) (source : Proc) (packet : FifoPacket) :
    Except OrderError (FifoOutput × FifoLayer) :=
  if !l.initialized then .error .notInitialized
  else
    match l.sources.get? source with
    | none => .error (.unknownProcess source)
    | some s =>
      if packet.sequence < s.expected || s.holds packet.sequence then
        .ok ({}, { l with stats := { l.stats with duplicates := l.stats.duplicates + 1 } })
      else if s.expected < packet.sequence then
        match l.limit.filter (· ≤ s.buffer.length) with
        | some limit => .error (.reorderBufferFull source limit)
        | none =>
          .ok ({},
            { l with
              sources := l.sources.put source (s.keep packet)
              stats := { l.stats with reordered := l.stats.reordered + 1 } })
      else
        let (waiting, s) := FifoSource.drain (s.expected + 1) s.buffer
        .ok ({ delivered := (packet.payload :: waiting).map fun bs => ⟨source, bs⟩ },
          { l with
            sources := l.sources.put source s
            stats := { l.stats with delivered := l.stats.delivered + 1 + waiting.length } })

/-- Moves to a new member list. New members start at zero in both directions, what was known of
departed members is dropped. Before any list this is `init`. -/
def applyView (l : FifoLayer) (members : List Proc) :
    Except OrderError (FifoOutput × FifoLayer) :=
  if !l.initialized then l.init members
  else
    match Proc.firstRepeated? members with
    | some p => .error (.duplicateMember p)
    | none =>
      let stays (p : Proc) : Bool := p ∈ members || p ∉ l.members
      .ok ({ directives := [members] },
        { l with
          members
          sent := members.foldl (fun t p => t.putNew p 0) (l.sent.filter (stays ·.1))
          sources := members.foldl (fun t p => t.putNew p {}) (l.sources.filter (stays ·.1)) })

def nextSequence? (l : FifoLayer) (p : Proc) : Option Nat := l.sent.get? p

def expectedSequence? (l : FifoLayer) (p : Proc) : Option Nat :=
  (l.sources.get? p).map (·.expected)

/-- How many packets of a source wait for their turn. -/
def buffered (l : FifoLayer) (p : Proc) : Nat :=
  ((l.sources.get? p).map (·.buffer.length)).getD 0

end FifoLayer

end Multicast
