import Multicast.Proofs.Causal.Awaited

/-! What a causal layer does in the course of an operation, one event after another. The output
of the operation is what its events put out. -/
namespace Multicast

namespace Output
variable {π : Type} {o p q : Output π}

@[simp] theorem append_sends : (o ++ p).sends = o.sends ++ p.sends := rfl
@[simp] theorem append_delivered : (o ++ p).delivered = o.delivered ++ p.delivered := rfl
@[simp] theorem append_directives : (o ++ p).directives = o.directives ++ p.directives := rfl
@[simp] theorem append_completed : (o ++ p).completed = o.completed ++ p.completed := rfl

theorem ext (hs : o.sends = p.sends) (hd : o.delivered = p.delivered)
    (hv : o.directives = p.directives) (hc : o.completed = p.completed) : o = p := by
  cases o
  cases p
  simp_all

theorem append_assoc : o ++ p ++ q = o ++ (p ++ q) := by
  apply ext <;> simp

@[simp] theorem empty_append : ({} : Output π) ++ o = o := by
  apply ext <;> simp

@[simp] theorem append_empty : o ++ ({} : Output π) = o := by
  apply ext <;> simp

end Output

inductive CausalEvent where
  /-- A member list is taken up. -/
  | moved (members : List Proc)
  | started (id : MessageId) (request : CausalRequest)
  /-- A message is delivered, under a member list, and acknowledged to some processes. -/
  | delivered (id : MessageId) (payload : Bytes) (informed members : List Proc)
  /-- Nobody is awaited any more for a message of the local process. -/
  | completed (id : MessageId)
  /-- Early acknowledgements are forgotten for want of room. -/
  | evicted (e : EarlyAck)
  deriving DecidableEq, Repr

namespace CausalEvent

def Starts (i : MessageId) : CausalEvent → Prop
  | started j _ => j = i
  | _ => False

def Delivers (i : MessageId) : CausalEvent → Prop
  | delivered j _ _ _ => j = i
  | _ => False

instance {i : MessageId} : DecidablePred (Delivers i) := fun e =>
  match e with
  | delivered j _ _ _ => inferInstanceAs (Decidable (j = i))
  | moved _ | started _ _ | completed _ | evicted _ => isFalse id

/-- The event makes a message known to the process. -/
def TakesUp (i : MessageId) (e : CausalEvent) : Prop := e.Starts i ∨ e.Delivers i

/-- The event shows a member list without `p`. -/
def Omits (p : Proc) : CausalEvent → Prop
  | moved members | delivered _ _ _ members => p ∉ members
  | _ => False

def output : CausalEvent → CausalOutput
  | moved members => { directives := [members] }
  | started id r =>
    { sends := (r.destinations.filter (· ≠ id.sender)).map fun p =>
        ⟨p, .send id r.destinations r.payload⟩ }
  | delivered id payload informed _ =>
    { sends := informed.map fun p => ⟨p, .ack id⟩, delivered := [⟨id.sender, payload⟩] }
  | completed id => { completed := [id] }
  | evicted _ => {}

def outputs : List CausalEvent → CausalOutput
  | [] => {}
  | e :: es => e.output ++ outputs es

end CausalEvent

/-- An operation of a causal layer with its arguments. -/
inductive CausalCall where
  | init (members : List Proc)
  | send (payload : Bytes) (destinations : List Proc)
  | deliver (source : Proc) (packet : CausalPacket)
  | view (members : List Proc)
  deriving DecidableEq, Repr

namespace CausalLayer

variable {l l' : CausalLayer} {i : MessageId} {p : Proc} {ps : List Proc} {r : CausalRequest}
  {q : List CausalRequest} {o : CausalOutput} {es fs : List CausalEvent}

def call (l : CausalLayer) : CausalCall → Except CausalError (CausalOutput × CausalLayer)
  | .init members => (l.init members).mapError .order
  | .send payload destinations => l.send payload destinations
  | .deliver source packet => (l.deliver source packet).mapError .order
  | .view members => (l.applyView members).mapError .order

/-- The layer after a call. A refused call changes nothing. -/
def after (l : CausalLayer) (c : CausalCall) : CausalLayer :=
  match l.call c with
  | .ok (_, l) => l
  | .error _ => l

def startEvents (l : CausalLayer) (r : CausalRequest) : List CausalEvent :=
  .started l.nextId r ::
    ((if l.here ∈ r.destinations then
        [.delivered l.nextId r.payload (l.audience r) l.members] else []) ++
      if l.audience r = [] then [.completed l.nextId] else [])

def drainEvents (l : CausalLayer) : List CausalRequest → List CausalEvent
  | [] => []
  | r :: queue =>
    if l.pending = [] then l.startEvents r ++ (l.start r).2.drainEvents queue else []

def completions (o : CausalOutput) : List CausalEvent := o.completed.map .completed

/-- Whom the delivery of a message is made known to. -/
def informed (l : CausalLayer) (source : Proc) (id : MessageId) (destinations : List Proc) :
    List Proc :=
  (Proc.firsts (destinations ++ [id.sender, source])).filter (· ≠ l.here)

/-- Who is awaited for a message that is delivered. -/
def residual (l : CausalLayer) (id : MessageId) (destinations : List Proc) : List Proc :=
  Proc.ascending (destinations.filter fun p => p ≠ l.here && p ∈ l.members && p ∉ l.earlyAcks id)

/-- The layer with the members that a new list omits removed. -/
def moveTo (l : CausalLayer) (members : List Proc) : CausalOutput × CausalLayer :=
  { l with members }.departAll (l.members.filter (· ∉ members))

/-- The message was started or delivered here. -/
def settled (l : CausalLayer) (id : MessageId) : Bool :=
  if id.sender = l.here then id.sequence < l.nextSequence else l.delivered.contains id

def packetEvents (l : CausalLayer) (source : Proc) : CausalPacket → List CausalEvent
  | .send id destinations payload =>
    if l.delivered.insert? id = none then []
    else [.delivered id payload (l.informed source id destinations) l.members]
  | .ack id =>
    if l.pending.has id then
      let (o, m) := l.release (· = id) source
      completions o ++ m.drainEvents m.queue
    else if l.settled id then [] else (l.evictions id).map .evicted

/-- The events of a call that is not refused. -/
def eventsOf (l : CausalLayer) : CausalCall → List CausalEvent
  | .init members => [.moved members]
  | .send payload destinations =>
    if l.pending = [] then
      let r : CausalRequest := ⟨payload, Proc.firsts destinations⟩
      l.startEvents r ++ (l.start r).2.drainEvents l.queue
    else []
  | .deliver source packet => l.packetEvents source packet
  | .view members =>
    if l.initialized then
      let (o, m) := l.moveTo members
      .moved members :: completions o ++ m.drainEvents m.queue
    else [.moved members]

def events (l : CausalLayer) (c : CausalCall) : List CausalEvent :=
  match l.call c with
  | .ok _ => l.eventsOf c
  | .error _ => []

/-! ### The output of the events -/

theorem outputs_append : CausalEvent.outputs (es ++ fs) =
    CausalEvent.outputs es ++ CausalEvent.outputs fs := by
  induction es with
  | nil => simp [CausalEvent.outputs]
  | cons e es ih => simp [CausalEvent.outputs, ih, Output.append_assoc]

theorem start_fst : (l.start r).1 =
    { sends := ((r.destinations.filter (· ≠ l.here)).map fun p =>
        ⟨p, .send l.nextId r.destinations r.payload⟩) ++
          if l.here ∈ r.destinations then (l.audience r).map fun p => ⟨p, .ack l.nextId⟩ else []
      delivered := if l.here ∈ r.destinations then [⟨l.here, r.payload⟩] else []
      completed := if l.audience r = [] then [l.nextId] else [] } := by
  by_cases h : l.here ∈ r.destinations
  · simp only [start, if_pos h]
    rfl
  · simp only [start, if_neg h, List.append_nil]
    rfl

theorem outputs_startEvents : CausalEvent.outputs (l.startEvents r) = (l.start r).1 := by
  rw [start_fst, startEvents]
  by_cases h : l.here ∈ r.destinations <;> by_cases ha : l.audience r = [] <;>
    apply Output.ext <;>
    simp only [h, ha, if_true, if_false, CausalEvent.outputs, CausalEvent.output,
      List.cons_append, List.nil_append, List.append_nil, List.map_nil, Output.append_sends,
      Output.append_delivered, Output.append_directives, Output.append_completed] <;>
    rfl

theorem outputs_drainEvents : CausalEvent.outputs (l.drainEvents q) = (l.startAll q).1 := by
  induction q generalizing l with
  | nil => rfl
  | cons r q ih =>
    by_cases h : l.pending = []
    · simp only [drainEvents, startAll, h, if_true, outputs_append, outputs_startEvents, ih]
    · simp only [drainEvents, startAll, h, if_false, CausalEvent.outputs]

theorem outputs_completions (h : o = { completed := o.completed }) :
    CausalEvent.outputs (completions o) = o := by
  rw [h]
  generalize o.completed = ids
  induction ids with
  | nil => rfl
  | cons i ids ih =>
    change _ ++ CausalEvent.outputs (completions { completed := ids }) = _
    rw [ih]
    apply Output.ext <;> simp [CausalEvent.output]

theorem departAll_output : (l.departAll ps).1 = { completed := (l.departAll ps).1.completed } := by
  induction ps generalizing l with
  | nil => rfl
  | cons p ps ih =>
    change (l.depart p).1 ++ ((l.depart p).2.departAll ps).1 = _
    rw [ih]
    rfl

theorem moveTo_output : (l.moveTo ps).1 = { completed := (l.moveTo ps).1.completed } :=
  departAll_output

theorem startAll_directives : (l.startAll q).1.directives = [] := by
  induction q generalizing l with
  | nil => rfl
  | cons r q ih =>
    by_cases h : l.pending = []
    · have hs : (l.startAll (r :: q)).1 = (l.start r).1 ++ ((l.start r).2.startAll q).1 := by
        rw [startAll, if_pos h]
      rw [hs, Output.append_directives, ih, start_fst]
      rfl
    · rw [startAll, if_neg h]

theorem outputs_evictions {ts : List EarlyAck} : CausalEvent.outputs (ts.map .evicted) = {} := by
  induction ts with
  | nil => rfl
  | cons e ts ih => simp [CausalEvent.outputs, CausalEvent.output, ih]

end CausalLayer

end Multicast
