import Multicast.Node.Basic
import Multicast.Proofs.Causal.Growth
import Multicast.Proofs.Fifo.Calls
import Multicast.Proofs.Node.PeerTable

/-! What a node does with packets and views, deed by deed, whatever else it does between them. -/
namespace Multicast

/-- What is recorded of a node. -/
inductive Deed where
  /-- An envelope with a packet has come. -/
  | arrived (h : HeldPacket)
  /-- A packet is routed, while the layers have these member lists. It is handed to its layer, or
  held. -/
  | routed (h : HeldPacket) (fifo causal : List Proc) (handed : Bool)
  /-- Both layers are moved to a view. -/
  | installed (v : View)
  /-- A layer is given a message to send. -/
  | fifoSent (payload : Bytes) (destinations : List Proc)
  | causalSent (payload : Bytes) (destinations : List Proc)
  deriving DecidableEq, Repr

namespace Deed

/-- The call of the FIFO layer in a deed. -/
def fifoCall? : Deed → Option FifoCall
  | .routed ⟨source, .fifo packet⟩ _ _ true => some (.deliver source packet)
  | .installed v => some (.view v.members)
  | .fifoSent payload destinations => some (.send payload destinations)
  | _ => none

/-- The call of the causal layer in a deed. -/
def causalCall? : Deed → Option CausalCall
  | .routed ⟨source, .causal packet⟩ _ _ true => some (.deliver source packet)
  | .installed v => some (.view v.members)
  | .causalSent payload destinations => some (.send payload destinations)
  | _ => none

def onFifo (l : FifoLayer) (d : Deed) : FifoLayer := d.fifoCall?.elim l l.after

def onCausal (l : CausalLayer) (d : Deed) : CausalLayer := d.causalCall?.elim l l.after

def isRouting : Deed → Bool
  | .routed .. => true
  | _ => false

def arrival? : Deed → Option HeldPacket
  | .arrived h => some h
  | _ => none

/-- The packet that is handed to its layer in a deed. -/
def handed? : Deed → Option HeldPacket
  | .routed h _ _ true => some h
  | _ => none

def view? : Deed → Option View
  | .installed v => some v
  | _ => none

end Deed

def NodeEvent.view? : NodeEvent → Option View
  | .newView v => some v
  | _ => none

/-- The layer after its answer to a call. -/
def FifoLayer.answered {ε : Type} (l : FifoLayer) : Except ε (FifoOutput × FifoLayer) → FifoLayer
  | .ok r => r.2
  | .error _ => l

def CausalLayer.answered {ε : Type} (l : CausalLayer) :
    Except ε (CausalOutput × CausalLayer) → CausalLayer
  | .ok r => r.2
  | .error _ => l

theorem FifoLayer.after_eq {l : FifoLayer} {c : FifoCall} : l.after c = l.answered (l.call c) := by
  rw [after]
  cases l.call c <;> rfl

section

variable {l : CausalLayer}

theorem CausalLayer.after_send {payload : Bytes} {ps : List Proc} :
    l.after (.send payload ps) = l.answered (l.send payload ps) := by
  rw [after, call]
  cases l.send payload ps <;> rfl

theorem CausalLayer.after_deliver {source : Proc} {packet : CausalPacket} :
    l.after (.deliver source packet) = l.answered (l.deliver source packet) := by
  rw [after, call]
  cases l.deliver source packet <;> rfl

theorem CausalLayer.after_view {members : List Proc} :
    l.after (.view members) = l.answered (l.applyView members) := by
  rw [after, call]
  cases l.applyView members <;> rfl

end

namespace Node

variable {n n' m : Node} {h : HeldPacket} {hs : List HeldPacket} {v : View} {s : ParkedSend}
  {p : Proc}

/-! ### The record -/

/-- The members that the layer of a packet has. -/
def membersFor (n : Node) : OrderPacket → List Proc
  | .fifo _ => n.fifo.members
  | .causal _ => n.causal.members

def routing (n : Node) (h : HeldPacket) : Deed :=
  .routed h n.fifo.members n.causal.members (h.source ∈ n.membersFor h.packet)

/-- Packets are routed one after another. -/
def routings (n : Node) : List HeldPacket → List Deed
  | [] => []
  | h :: hs => n.routing h :: (n.routePacket h).routings hs

/-- Parked sends are given to the causal layer. -/
def admissions (n : Node) : List ParkedSend → List Deed
  | [] => []
  | s :: parked =>
    if n.causal.hasCapacity then
      .causalSent s.request.payload s.request.destinations ::
        match n.tryCausal s with
        | .ok n => n.admissions parked
        | .error _ => []
    else []

def takeFifo {ε : Type} (n : Node) : Except ε (FifoOutput × FifoLayer) → Node
  | .ok (o, fifo) => { n with fifo }.applyFifo o
  | .error _ => n

def takeCausal {ε : Type} (n : Node) : Except ε (CausalOutput × CausalLayer) → Node
  | .ok (o, causal) => { n with causal }.applyCausal o
  | .error _ => n

/-- The part of `install` that moves the layers. -/
def moveTo (n : Node) (v : View) : Node :=
  let n := n.takeFifo (n.fifo.applyView v.members)
  let n := n.takeCausal (n.causal.applyView v.members)
  n.report [.newView v]

theorem install_eq : n.install v = (n.moveTo v).replayHeld.admitParked := by
  rw [install, moveTo]
  cases n.fifo.applyView v.members with
  | ok r =>
    simp only [takeFifo]
    generalize applyFifo _ r.1 = m
    cases m.causal.applyView v.members <;> rfl
  | error e =>
    simp only [takeFifo]
    cases n.causal.applyView v.members <;> rfl

def installing (n : Node) (v : View) : List Deed :=
  let moved := n.moveTo v
  .installed v :: ({ moved with held := [] }.routings moved.held ++
    moved.replayHeld.admissions moved.replayHeld.parked)

def installings (n : Node) : List View → List Deed
  | [] => []
  | v :: vs => n.installing v ++ (n.install v).installings vs

/-- The part of `applyMembership` that comes before the views. -/
def prepare (n : Node) (o : MembershipOutput) : Node :=
  o.transfers.foldl (fun n (p, t) => n.transmit p (.state t)) (o.directives.foldl direct n)

theorem applyMembership_eq {o : MembershipOutput} : n.applyMembership o =
    (o.newViews.foldl install (n.prepare o)).report (o.abcast.map .abcast) := rfl

def membershipDeeds (n : Node) (o : MembershipOutput) : List Deed :=
  (n.prepare o).installings o.newViews

/-! ### What is done besides -/

/-- Nothing is done that is recorded. -/
structure Aside (n n' : Node) : Prop where
  fifo : n'.fifo = n.fifo
  causal : n'.causal = n.causal
  membership : n'.membership = n.membership
  held : n'.held = n.held
  views : n'.events.filterMap NodeEvent.view? = n.events.filterMap NodeEvent.view?

theorem Aside.refl : Aside n n := ⟨rfl, rfl, rfl, rfl, rfl⟩

theorem Aside.trans (h : Aside n n') (h' : Aside n' m) : Aside n m :=
  ⟨h'.fifo.trans h.fifo, h'.causal.trans h.causal, h'.membership.trans h.membership,
    h'.held.trans h.held, h'.views.trans h.views⟩

theorem aside_foldl {α : Type} {f : Node → α → Node} (hf : ∀ n x, Aside n (f n x)) {xs : List α} :
    Aside n (xs.foldl f n) := by
  induction xs generalizing n with
  | nil => exact .refl
  | cons x xs ih => exact (hf n x).trans ih

theorem aside_report {events : List NodeEvent} (h : events.filterMap NodeEvent.view? = []) :
    Aside n (n.report events) := by
  refine ⟨rfl, rfl, rfl, rfl, ?_⟩
  rw [report, List.filterMap_append, h, List.append_nil]

theorem aside_ensure : Aside n (n.ensure p) := ⟨rfl, rfl, rfl, rfl, rfl⟩

theorem aside_ensureAll {ps : List Proc} : Aside n (n.ensureAll ps) :=
  aside_foldl fun _ _ => aside_ensure

theorem aside_transmit {e : Envelope} : Aside n (n.transmit p e) := ⟨rfl, rfl, rfl, rfl, rfl⟩

theorem aside_applyFifo {o : FifoOutput} : Aside n (n.applyFifo o) := by
  have hnone : (o.delivered.map NodeEvent.fifoDelivered).filterMap NodeEvent.view? = [] := by
    simp [List.filterMap_map, Function.comp_def, NodeEvent.view?]
  exact ((aside_foldl fun _ _ => aside_ensureAll).trans
    (aside_foldl fun _ _ => aside_transmit)).trans (aside_report hnone)

theorem aside_applyCausal {o : CausalOutput} : Aside n (n.applyCausal o) := by
  have hnone : (o.delivered.map NodeEvent.causalDelivered).filterMap NodeEvent.view? = [] := by
    simp [List.filterMap_map, Function.comp_def, NodeEvent.view?]
  exact ((aside_foldl fun _ _ => aside_ensureAll).trans
    (aside_foldl fun _ _ => aside_transmit)).trans (aside_report hnone)

theorem aside_direct {d : MembershipDirective} : Aside n (n.direct d) := by
  cases d with
  | joinList members => exact aside_ensureAll
  | added q => exact aside_ensure
  | removed q =>
    rw [direct]
    split
    · exact .refl
    · exact ⟨rfl, rfl, rfl, rfl, rfl⟩

theorem aside_prepare {o : MembershipOutput} : Aside n (n.prepare o) :=
  (aside_foldl fun _ _ => aside_direct).trans (aside_foldl fun _ _ => aside_transmit)

theorem aside_onEstablished {c : ConnectionId} {key : Option ConnectionKey} :
    Aside n (n.onEstablished c p key) := by
  have hnone : (n.peers.onEstablished c p key n.transport).1.filterMap NodeEvent.view? = [] := by
    obtain h | h : (n.peers.onEstablished c p key n.transport).1 = [] ∨ _ :=
      PeerTable.events_onEstablished
    · rw [h]
      rfl
    · rw [h]
      rfl
  exact ⟨rfl, rfl, rfl, rfl, (aside_report hnone).views⟩

theorem aside_onLost {c : ConnectionId} {remote : Option Proc} {reason : String} :
    Aside n (n.onLost c remote reason) := by
  have hnone : (n.peers.onLost c remote reason).1.filterMap NodeEvent.view? = [] := by
    obtain h | ⟨q, h⟩ : (n.peers.onLost c remote reason).1 = [] ∨ _ := PeerTable.events_onLost
    · rw [h]
      rfl
    · rw [h]
      rfl
  exact ⟨rfl, rfl, rfl, rfl, (aside_report hnone).views⟩

theorem aside_reconnect : Aside n n.reconnect := by
  rw [reconnect]
  split
  · exact aside_ensureAll
  · exact .refl

/-! ### What is recorded -/

/-- The deeds account for what has become of the layers, and for the views that were reported. -/
structure Explained (n : Node) (ds : List Deed) (n' : Node) : Prop where
  fifo : n'.fifo = ds.foldl Deed.onFifo n.fifo
  causal : n'.causal = ds.foldl Deed.onCausal n.causal
  views : n'.events.filterMap NodeEvent.view? =
    n.events.filterMap NodeEvent.view? ++ ds.filterMap Deed.view?

/-- A deed makes `n` into `n'`, which leaves the membership layer out. -/
structure Does (n : Node) (d : Deed) (n' : Node) : Prop where
  explained : Explained n [d] n'
  membership : n'.membership = n.membership

variable {ds es : List Deed} {d : Deed}

theorem Explained.trans (h : Explained n ds n') (h' : Explained n' es m) :
    Explained n (ds ++ es) m := by
  refine ⟨?_, ?_, ?_⟩
  · rw [h'.fifo, h.fifo, List.foldl_append]
  · rw [h'.causal, h.causal, List.foldl_append]
  · rw [h'.views, h.views, List.filterMap_append, List.append_assoc]

theorem Aside.explained (h : Aside n n') : Explained n [] n' :=
  ⟨h.fifo, h.causal, h.views.trans (List.append_nil _).symm⟩

/-- A deed that reports no view. -/
theorem Aside.does (h : Aside m n') (hfifo : m.fifo = d.onFifo n.fifo)
    (hcausal : m.causal = d.onCausal n.causal) (hmembership : m.membership = n.membership)
    (hevents : m.events = n.events) (hd : d.view? = none) : Does n d n' := by
  refine ⟨⟨h.fifo.trans hfifo, h.causal.trans hcausal, ?_⟩, h.membership.trans hmembership⟩
  rw [h.views, hevents, List.filterMap_cons_none hd, List.filterMap_nil, List.append_nil]

/-- The held packets do not count. -/
theorem Does.holding (h : Does n d n') {held : List HeldPacket} : Does n d { n' with held } :=
  ⟨⟨h.explained.fifo, h.explained.causal, h.explained.views⟩, h.membership⟩

/-! ### Packets -/

/-- The packets of processes that are no members are held. -/
theorem routePacket_held (hs : h.source ∉ n.membersFor h.packet) : n.routePacket h = n.hold h := by
  obtain ⟨source, packet⟩ := h
  cases packet <;> exact if_pos hs

theorem does_held {held : List HeldPacket} :
    Does n (.routed h n.fifo.members n.causal.members false) { n with held } := by
  have haside : Aside n n := .refl
  obtain ⟨source, packet⟩ := h
  cases packet with
  | fifo packet => exact (haside.does rfl rfl rfl rfl rfl).holding
  | causal packet => exact (haside.does rfl rfl rfl rfl rfl).holding

theorem aside_takeFifo {ε : Type} {r : Except ε (FifoOutput × FifoLayer)} :
    Aside { n with fifo := n.fifo.answered r } (n.takeFifo r) := by
  cases r with
  | error e => exact .refl
  | ok r => exact aside_applyFifo

theorem aside_takeCausal {ε : Type} {r : Except ε (CausalOutput × CausalLayer)} :
    Aside { n with causal := n.causal.answered r } (n.takeCausal r) := by
  cases r with
  | error e => exact .refl
  | ok r => exact aside_applyCausal

/-- The packets of members are handed to their layer. -/
theorem routePacket_handed (hs : h.source ∈ n.membersFor h.packet) :
    Does n (.routed h n.fifo.members n.causal.members true) (n.routePacket h) ∧
      (n.routePacket h).held = n.held := by
  obtain ⟨source, packet⟩ := h
  cases packet with
  | fifo packet =>
    have hroute : n.routePacket ⟨source, .fifo packet⟩ =
        n.takeFifo (n.fifo.deliver source packet) := by
      simp only [routePacket, not_not_intro (show source ∈ n.fifo.members from hs), if_false]
      cases n.fifo.deliver source packet <;> rfl
    have haside : Aside { n with fifo := n.fifo.answered (n.fifo.deliver source packet) }
        (n.takeFifo (n.fifo.deliver source packet)) := aside_takeFifo
    rw [hroute]
    have hcall : n.fifo.after (.deliver source packet) =
        n.fifo.answered (n.fifo.deliver source packet) := FifoLayer.after_eq
    exact ⟨haside.does hcall.symm rfl rfl rfl rfl, haside.held⟩
  | causal packet =>
    have hroute : n.routePacket ⟨source, .causal packet⟩ =
        n.takeCausal (n.causal.deliver source packet) := by
      simp only [routePacket, not_not_intro (show source ∈ n.causal.members from hs), if_false]
      cases n.causal.deliver source packet <;> rfl
    have haside : Aside { n with causal := n.causal.answered (n.causal.deliver source packet) }
        (n.takeCausal (n.causal.deliver source packet)) := aside_takeCausal
    rw [hroute]
    exact ⟨haside.does rfl CausalLayer.after_deliver.symm rfl rfl rfl, haside.held⟩

/-! ### Views and sends -/

/-- To move to a view is one deed. -/
theorem does_moveTo : Does n (.installed v) (n.moveTo v) ∧ (n.moveTo v).held = n.held := by
  -- What the FIFO layer asks for is carried out first, and leaves the causal layer alone.
  let m := n.takeFifo (n.fifo.applyView v.members)
  have hfifo : Aside { n with fifo := n.fifo.answered (n.fifo.applyView v.members) } m :=
    aside_takeFifo
  have hcausal : Aside { m with causal := m.causal.answered (m.causal.applyView v.members) }
      (m.takeCausal (m.causal.applyView v.members)) := aside_takeCausal
  have hsame : m.causal = n.causal := hfifo.causal
  refine ⟨⟨⟨?_, ?_, ?_⟩, hcausal.membership.trans hfifo.membership⟩,
    hcausal.held.trans hfifo.held⟩
  · refine (hcausal.fifo.trans hfifo.fifo).trans ?_
    exact (FifoLayer.after_eq (c := .view v.members)).symm
  · refine hcausal.causal.trans ?_
    rw [hsame]
    exact CausalLayer.after_view.symm
  · change ((m.takeCausal (m.causal.applyView v.members)).events ++
      [NodeEvent.newView v]).filterMap NodeEvent.view? = _
    rw [List.filterMap_append, hcausal.views]
    exact congrArg (· ++ [v]) hfifo.views

theorem does_fifoSend {payload : Bytes} {ps : List Proc} :
    Does n (.fifoSent payload ps) (n.takeFifo (n.fifo.send payload ps)) ∧
      (n.takeFifo (n.fifo.send payload ps)).held = n.held := by
  have haside : Aside { n with fifo := n.fifo.answered (n.fifo.send payload ps) }
      (n.takeFifo (n.fifo.send payload ps)) := aside_takeFifo
  have hcall : n.fifo.after (.send payload ps) = n.fifo.answered (n.fifo.send payload ps) :=
    FifoLayer.after_eq
  exact ⟨haside.does hcall.symm rfl rfl rfl rfl, haside.held⟩

theorem does_tryCausal (hs : n.tryCausal s = .ok n') :
    Does n (.causalSent s.request.payload s.request.destinations) n' ∧ n'.held = n.held := by
  have hcall : n.causal.after (.send s.request.payload s.request.destinations) =
      n.causal.answered (n.causal.send s.request.payload s.request.destinations) :=
    CausalLayer.after_send
  rw [tryCausal] at hs
  cases hsend : n.causal.send s.request.payload s.request.destinations with
  | ok r =>
    rw [hsend] at hs hcall
    obtain rfl := Except.ok.inj hs
    let m := { n with causal := r.2 }.reply s.ticket (.ok .sent)
    have haside : Aside m (m.applyCausal r.1) := aside_applyCausal
    exact ⟨haside.does rfl hcall.symm rfl rfl rfl, haside.held⟩
  | error e =>
    rw [hsend] at hs hcall
    cases e with
    | windowFull outstanding request => cases hs
    | order e =>
      obtain rfl := Except.ok.inj hs
      let m := n.reply s.ticket (.error (.order e))
      have haside : Aside m m := .refl
      exact ⟨haside.does rfl hcall.symm rfl rfl rfl, rfl⟩

/-- A send that is not taken changes nothing. -/
theorem does_tryCausal_parked {s' : ParkedSend} (hs : n.tryCausal s = .error s')
    {parked : List ParkedSend} :
    Does n (.causalSent s.request.payload s.request.destinations) { n with parked } := by
  have hcall : n.causal.after (.send s.request.payload s.request.destinations) =
      n.causal.answered (n.causal.send s.request.payload s.request.destinations) :=
    CausalLayer.after_send
  rw [tryCausal] at hs
  cases hsend : n.causal.send s.request.payload s.request.destinations with
  | ok r =>
    rw [hsend] at hs
    cases hs
  | error e =>
    rw [hsend] at hcall
    have haside : Aside { n with parked } { n with parked } := .refl
    exact haside.does rfl hcall.symm rfl rfl rfl

end Node

/-! ### All that happens to a node -/

/-- What happens to a node. -/
inductive Incident where
  /-- A first view is taken up. -/
  | opening (members : List Proc)
  | command (c : Command)
  | event (e : TransportEvent)
  /-- Parked sends are decided. -/
  | admission
  | reconnection
  /-- Commands are queued or taken out, or bytes are moved. -/
  | exchange (queue : BoundedQueue Command) (transport : Transport)

namespace Node

variable {n : Node} {ready : List Readiness} {overdue : Bool}

def step (n : Node) : Incident → Node
  | .opening members =>
    match n.membership.init members with
    | .ok (o, membership) => { n with membership }.applyMembership o
    | .error _ => n
  | .command c => n.onCommand c
  | .event e => n.onTransportEvent e
  | .admission => n.admitParked
  | .reconnection => n.reconnect
  | .exchange queue transport => { n with queue, transport }

def run (n : Node) (incidents : List Incident) : Node := incidents.foldl step n

def routeDeeds (n : Node) (source : Proc) : Envelope → List Deed
  | .state t =>
    match n.membership.deliverState t with
    | .ok (o, membership) => { n with membership }.membershipDeeds o
    | .error _ => []
  | .fifo packet => [.arrived ⟨source, .fifo packet⟩, n.routing ⟨source, .fifo packet⟩]
  | .causal packet => [.arrived ⟨source, .causal packet⟩, n.routing ⟨source, .causal packet⟩]

def frameDeeds (n : Node) (c : ConnectionId) (payload : Bytes) : List Deed :=
  match n.peers.ownerOf? c with
  | none => []
  | some source =>
    match Envelope.decode payload with
    | .ok e => n.routeDeeds source e
    | .error _ => []

def commandDeeds (n : Node) : Command → List Deed
  | .fifoSend payload dests => [.fifoSent payload (dests.resolve n.fifo.members)]
  | .causalSend _ payload dests =>
    if n.parked = [] then [.causalSent payload (dests.resolve n.causal.members)] else []
  | .join p => n.membershipDeeds (n.membership.join p)
  | .remove p => n.membershipDeeds (n.membership.remove p)
  | .adeliver op =>
    let (o, membership) := n.membership.adeliver op
    { n with membership }.membershipDeeds o
  | .view _ => []

def deeds (n : Node) : Incident → List Deed
  | .opening members =>
    match n.membership.init members with
    | .ok (o, membership) => { n with membership }.membershipDeeds o
    | .error _ => []
  | .command c => n.commandDeeds c
  | .event (.received c payload) => n.frameDeeds c payload
  | .admission => n.admissions n.parked
  | .event _ | .reconnection | .exchange .. => []

/-- All deeds of a run. -/
def history (n : Node) : List Incident → List Deed
  | [] => []
  | i :: incidents => n.deeds i ++ (n.step i).history incidents

theorem run_append {is js : List Incident} : n.run (is ++ js) = (n.run is).run js :=
  List.foldl_append

/-- Nothing has happened to the node yet. -/
structure Blank (n : Node) : Prop where
  fifo : n.fifo.members = []
  causal : n.causal.members = []
  view : n.membership.view = none
  held : n.held = []

/-- A node that has started has taken up its first view, and nothing had happened to it before. -/
theorem start_eq_step {config : NodeConfig} {network : Network}
    (h : Node.start config network = .ok n) :
    ∃ n₀ members, Blank n₀ ∧ n = n₀.step (.opening members) := by
  unfold Node.start at h
  simp only [bind, Except.bind, Except.mapError, pure, Except.pure] at h
  cases hbind : Transport.bind config.here config.transport network with
  | error e =>
    rw [hbind] at h
    cases h
  | ok transport =>
    rw [hbind] at h
    cases hqueue : (BoundedQueue.empty? config.queueCapacity : Option (BoundedQueue Command)) with
    | none =>
      simp only [hqueue] at h
      cases h
    | some queue =>
      simp only [hqueue] at h
      let here := transport.here
      let n₀ : Node := {
        here
        queue
        fifo := { here, limit := config.fifoLimit }
        causal := { here, maxOutstanding := config.maxOutstanding,
                    earlyCapacity := config.earlyCapacity }
        membership := { here }
        peers := { here }
        transport }
      let members := config.members.map fun p => if p = config.here then here else p
      refine ⟨n₀, members, ⟨rfl, rfl, rfl, rfl⟩, ?_⟩
      split at h
      · cases h
      · rename_i hmapped
        obtain rfl := Except.ok.inj h
        split at hmapped
        · cases hmapped
        · rename_i r hinit
          obtain rfl := Except.ok.inj hmapped
          have hfirst : n₀.membership.init members = .ok r := hinit
          rw [Node.step, hfirst]

end Node

end Multicast
