import Multicast.Order.Delivered
import Multicast.Order.Layer

/-! The causal layer: delivery respects happens-before.

A receiver delivers a message at once and acknowledges it to all others that take part in it. A
process starts no message of its own while one that it sent or delivered is not acknowledged by
all its destinations. -/
namespace Multicast

/-- A message that has not been started. -/
structure CausalRequest where
  payload : Bytes
  destinations : List Proc
  deriving DecidableEq, Repr

/-- Acknowledgements of a message that has not arrived. -/
structure EarlyAck where
  id : MessageId
  /-- Its number in the order in which such messages were first heard of. -/
  arrival : Nat
  /-- The processes that acknowledged it, ascending. -/
  acked : List Proc
  deriving DecidableEq, Repr

structure CausalStats where
  sent : Nat := 0
  delivered : Nat := 0
  /-- Messages dropped because they had been delivered before. -/
  duplicates : Nat := 0
  evictedEarlyAcks : Nat := 0
  deriving DecidableEq, Repr

structure CausalLayer where
  /-- The local process. -/
  here : Proc
  /-- Bound on the messages pending and queued. -/
  maxOutstanding : Nat := 1024
  /-- Bound on the messages whose early acknowledgements are remembered. -/
  earlyCapacity : Nat := 4096
  initialized : Bool := false
  members : List Proc := []
  /-- The number of the next message of the local process. -/
  nextSequence : Nat := 0
  /-- Messages sent or delivered here, ascending, with the processes (ascending) whose
  acknowledgement is awaited. -/
  pending : Table MessageId (List Proc) := []
  /-- Messages to start once nothing is pending, oldest first. -/
  queue : List CausalRequest := []
  /-- Oldest first. -/
  early : List EarlyAck := []
  /-- How many messages were ever heard of early. -/
  arrivals : Nat := 0
  delivered : Delivered := {}
  stats : CausalStats := {}
  deriving DecidableEq, Repr

inductive CausalError where
  /-- Too many messages are outstanding. The request is handed back to be tried again. -/
  | windowFull (outstanding : Nat) (request : CausalRequest)
  | order (e : OrderError)
  deriving DecidableEq, Repr

namespace CausalError

def message : CausalError → String
  | .windowFull outstanding _ =>
    "causal send window is full (" ++ toString outstanding ++ " outstanding)"
  | .order e => e.message

def isWindowFull : CausalError → Bool
  | .windowFull _ _ => true
  | .order _ => false

end CausalError

abbrev CausalOutput := Output CausalPacket

namespace CausalLayer

/-- Messages pending and queued. -/
def outstanding (l : CausalLayer) : Nat := l.pending.length + l.queue.length

def hasCapacity (l : CausalLayer) : Bool := l.outstanding < l.maxOutstanding

/-- The processes whose acknowledgement of a message is awaited. -/
def awaiting? (l : CausalLayer) (id : MessageId) : Option (List Proc) := l.pending.get? id

/-- Takes up a message as pending unless nothing is awaited for it. -/
def await (l : CausalLayer) (id : MessageId) (residual : List Proc) : CausalLayer :=
  if residual = [] then l
  else
    { l with pending := insertAscending (fun a b => a.1.order b.1) (id, residual) l.pending }

/-- Sends one message to its destinations. The local process is not sent its own message, it
delivers it here; its acknowledgements go out after the message itself. -/
def start (l : CausalLayer) (r : CausalRequest) : CausalOutput × CausalLayer :=
  let id : MessageId := ⟨l.here, l.nextSequence⟩
  let others := r.destinations.filter (· ≠ l.here)
  let residual := Proc.ascending others
  let sends := others.map fun p => ⟨p, .send id r.destinations r.payload⟩
  let completed := if residual = [] then [id] else []
  let l := { l with
    nextSequence := l.nextSequence + 1
    stats := { l.stats with sent := l.stats.sent + 1 } }
  if l.here ∈ r.destinations then
    ({ sends := sends ++ residual.map fun p => ⟨p, .ack id⟩
       delivered := [⟨l.here, r.payload⟩]
       completed },
      { l with
        delivered := l.delivered.insert id
        stats := { l.stats with delivered := l.stats.delivered + 1 } }.await id residual)
  else ({ sends, completed }, l.await id residual)

/-- Starts messages from the front of `queue` while nothing is pending. -/
def startAll (l : CausalLayer) : List CausalRequest → CausalOutput × CausalLayer
  | [] => ({}, { l with queue := [] })
  | r :: queue =>
    if l.pending = [] then
      let (o, l) := l.start r
      let (o', l) := l.startAll queue
      (o ++ o', l)
    else ({}, { l with queue := r :: queue })

/-- Starts queued messages while nothing is pending. -/
def drainQueue (l : CausalLayer) : CausalOutput × CausalLayer := l.startAll l.queue

/-- No longer awaits `p` for the messages that `which` selects. Those for which nobody is awaited
any more are settled, and completed if they are the local process's own. -/
def release (l : CausalLayer) (which : MessageId → Bool) (p : Proc) :
    CausalOutput × CausalLayer :=
  let pending := l.pending.map fun e => if which e.1 then (e.1, e.2.filter (· ≠ p)) else e
  let settled (e : MessageId × List Proc) : Bool := which e.1 && e.2.isEmpty
  ({ completed := (Table.keys (pending.filter settled)).filter (·.sender = l.here) },
    { l with pending := pending.filter (!settled ·) })

/-- Remembers the acknowledgement of a message that has not arrived. A new message takes the
place of the oldest if the table is full. -/
def recordEarly (l : CausalLayer) (source : Proc) (id : MessageId) : CausalLayer :=
  if l.early.any (·.id = id) then
    { l with
      early := l.early.map fun e =>
        if e.id = id then { e with acked := insertAscending Proc.order source e.acked } else e }
  else
    let evicted := if l.earlyCapacity ≤ l.early.length then l.early.take 1 else []
    { l with
      early := l.early.drop evicted.length ++ [⟨id, l.arrivals, [source]⟩]
      arrivals := l.arrivals + 1
      stats := { l.stats with evictedEarlyAcks := l.stats.evictedEarlyAcks + evicted.length } }

/-- The processes that acknowledged a message before it arrived. -/
def earlyAcks (l : CausalLayer) (id : MessageId) : List Proc :=
  (l.early.filter (·.id = id)).flatMap (·.acked)

/-- Delivers a message and acknowledges it to its destinations, its sender and the process that
passed it on. Those of its destinations that are members and have not acknowledged it yet are
awaited. -/
def onSend (l : CausalLayer) (source : Proc) (id : MessageId) (destinations : List Proc)
    (payload : Bytes) : CausalOutput × CausalLayer :=
  match l.delivered.insert? id with
  | none => ({}, { l with stats := { l.stats with duplicates := l.stats.duplicates + 1 } })
  | some delivered =>
    let ackTo := (Proc.firsts (destinations ++ [id.sender, source])).filter (· ≠ l.here)
    let early := l.earlyAcks id
    let residual := Proc.ascending
      (destinations.filter fun p => p ≠ l.here && p ∈ l.members && p ∉ early)
    ({ sends := ackTo.map fun p => ⟨p, .ack id⟩
       delivered := [⟨id.sender, payload⟩] },
      { l with
        delivered
        early := l.early.filter (·.id ≠ id)
        stats := { l.stats with delivered := l.stats.delivered + 1 } }.await id residual)

/-- An acknowledgement of a message that is not pending is of no use if the message is known here,
and early otherwise. -/
def onAck (l : CausalLayer) (source : Proc) (id : MessageId) : CausalOutput × CausalLayer :=
  if l.pending.has id then
    let (o, l) := l.release (· = id) source
    let (o', l) := l.drainQueue
    (o ++ o', l)
  else if id.sender = l.here && id.sequence < l.nextSequence then ({}, l)
  else if id.sender ≠ l.here && l.delivered.contains id then ({}, l)
  else ({}, l.recordEarly source id)

/-- Takes up the first member list. -/
def init (l : CausalLayer) (members : List Proc) :
    Except OrderError (CausalOutput × CausalLayer) :=
  if l.initialized then .error .alreadyInitialized
  else
    match Proc.firstRepeated? members with
    | some p => .error (.duplicateMember p)
    | none => .ok ({ directives := [members] }, { l with initialized := true, members })

/-- Starts a message at once if nothing is pending and queues it otherwise. -/
def send (l : CausalLayer) (payload : Bytes) (destinations : List Proc) :
    Except CausalError (CausalOutput × CausalLayer) :=
  if !l.initialized then .error (.order .notInitialized)
  else if destinations = [] then .error (.order .noDestinations)
  else
    let destinations := Proc.firsts destinations
    match destinations.find? (· ∉ l.members) with
    | some p => .error (.order (.unknownProcess p))
    | none =>
      let request : CausalRequest := ⟨payload, destinations⟩
      if l.maxOutstanding ≤ l.outstanding then .error (.windowFull l.outstanding request)
      else if l.pending = [] then
        let (o, l) := l.start request
        let (o', l) := l.drainQueue
        .ok (o ++ o', l)
      else .ok ({}, { l with queue := l.queue ++ [request] })

/-- Handles a packet from a member. -/
def deliver (l : CausalLayer) (source : Proc) (packet : CausalPacket) :
    Except OrderError (CausalOutput × CausalLayer) :=
  if !l.initialized then .error .notInitialized
  else if source ∉ l.members then .error (.unknownProcess source)
  else
    match packet with
    | .send id destinations payload => .ok (l.onSend source id destinations payload)
    | .ack id => .ok (l.onAck source id)

/-- Forgets a departed member: its messages may be numbered anew, and it acknowledges nothing
any more. -/
def depart (l : CausalLayer) (p : Proc) : CausalOutput × CausalLayer :=
  { l with delivered := l.delivered.forget p }.release (fun _ => true) p

/-- Forgets several departed members, one after another. -/
def departAll (l : CausalLayer) : List Proc → CausalOutput × CausalLayer
  | [] => ({}, l)
  | p :: ps =>
    let (o, l) := l.depart p
    let (o', l) := l.departAll ps
    (o ++ o', l)

/-- Moves to a new member list. Messages that only departed members had not acknowledged are
settled, and queued messages start if nothing is pending then. Before any list this is `init`. -/
def applyView (l : CausalLayer) (members : List Proc) :
    Except OrderError (CausalOutput × CausalLayer) :=
  if !l.initialized then l.init members
  else
    match Proc.firstRepeated? members with
    | some p => .error (.duplicateMember p)
    | none =>
      let departed := l.members.filter (· ∉ members)
      let (o, l) := { l with members }.departAll departed
      let (o', l) := l.drainQueue
      .ok (o ++ o' ++ { directives := [members] }, l)

end CausalLayer

end Multicast
