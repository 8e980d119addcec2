import Mathlib.Data.List.Infix
import Multicast.Proofs.Membership.Agreed
import Multicast.Proofs.Node.Deeds

/-! Packets of processes outside the view are held, and handed over in the order they came once
their source is in a view. -/
namespace Multicast

/-! ### Member lists -/

theorem FifoLayer.members_view {l : FifoLayer} {members : List Proc} (hn : members.Nodup) :
    (l.after (.view members)).members = members := by
  cases hl : l.initialized <;>
    simp [after, call, applyView, FifoLayer.init, hl, Proc.firstRepeated?_eq_none.mpr hn]

theorem CausalLayer.members_view {l : CausalLayer} {members : List Proc} (hn : members.Nodup) :
    (l.after (.view members)).members = members := by
  cases h : l.call (.view members) with
  | error e =>
    cases hl : l.initialized <;>
      simp [call, applyView, CausalLayer.init, hl, Proc.firstRepeated?_eq_none.mpr hn,
        Except.mapError] at h
  | ok r =>
    obtain ⟨es, m, fs, hs, hd, -, -⟩ := call_ok h
    rw [after_of_ok h, drains_members hd, step_view hs]

theorem CausalLayer.members_traffic {l : CausalLayer} {c : CausalCall}
    (hinit : ∀ ms, c ≠ .init ms) (hview : ∀ ms, c ≠ .view ms) :
    (l.after c).members = l.members := by
  rcases Group.after_members (l := l) (c := c) with h | h | h
  · exact h
  · exact (hinit _ h).elim
  · exact (hview _ h).elim

namespace Deed

variable {d e : Deed} {s : Proc} {log xs ys : List Deed} {v : View} {h : HeldPacket}

theorem members_onFifo {l : FifoLayer} (hd : ∀ v, d.view? = some v → v.members.Nodup) :
    (d.onFifo l).members = d.view?.elim l.members (·.members) := by
  cases d with
  | arrived | causalSent => rfl
  | installed v => exact FifoLayer.members_view (hd v rfl)
  | fifoSent payload ps => exact (FifoLayer.traffic_after (c := .send payload ps) rfl).2.2
  | routed h fifo causal handed =>
    obtain ⟨source, packet | packet⟩ := h <;> cases handed <;> try rfl
    exact (FifoLayer.traffic_after (c := .deliver source packet) rfl).2.2

theorem members_onCausal {l : CausalLayer} (hd : ∀ v, d.view? = some v → v.members.Nodup) :
    (d.onCausal l).members = d.view?.elim l.members (·.members) := by
  cases d with
  | arrived | fifoSent => rfl
  | installed v => exact CausalLayer.members_view (hd v rfl)
  | causalSent payload ps => exact CausalLayer.members_traffic nofun nofun
  | routed h fifo causal handed =>
    obtain ⟨source, packet | packet⟩ := h <;> cases handed <;> try rfl
    exact CausalLayer.members_traffic nofun nofun

/-! ### Reading the record -/

/-- The member list of the last view that was installed. -/
def standing (log : List Deed) : List Proc :=
  (log.filterMap view?).getLast?.elim [] (·.members)

/-- The packets of `s` that have come. -/
def arrivals (s : Proc) (log : List Deed) : List HeldPacket :=
  (log.filterMap arrival?).filter (·.source = s)

/-- The packets of `s` that were handed to their layers. -/
def handovers (s : Proc) (log : List Deed) : List HeldPacket :=
  (log.filterMap handed?).filter (·.source = s)

theorem standing_append_singleton :
    standing (log ++ [d]) = d.view?.elim (standing log) (·.members) := by
  rw [standing, standing, List.filterMap_append]
  cases h : d.view? with
  | none => rw [List.filterMap_cons_none h, List.filterMap_nil, List.append_nil, Option.elim_none]
  | some v => rw [List.filterMap_cons_some h, List.filterMap_nil, List.getLast?_concat]; rfl

theorem arrivals_append : arrivals s (xs ++ ys) = arrivals s xs ++ arrivals s ys := by
  rw [arrivals, List.filterMap_append, List.filter_append, arrivals, arrivals]

theorem handovers_append : handovers s (xs ++ ys) = handovers s xs ++ handovers s ys := by
  rw [handovers, List.filterMap_append, List.filter_append, handovers, handovers]

/-- How a deed may follow a record: a packet that has come is routed next, a packet is routed by
the last view to both layers, and is handed over if its source is a member; all else waits until
nothing is left to hand over. -/
def Follows (log : List Deed) : Deed → Prop
  | .routed h fifo causal given =>
    (∀ g, log.getLast? = some (.arrived g) → h = g) ∧
      fifo = standing log ∧ causal = standing log ∧ (given = true ↔ h.source ∈ standing log)
  | _ => (∀ g, log.getLast? ≠ some (.arrived g)) ∧
      ∀ s ∈ standing log, handovers s log = arrivals s log

/-- Every deed follows those before it. -/
def Lawful (log : List Deed) : Prop := ∀ past d, past ++ [d] <+: log → Follows past d

theorem Lawful.append (h : Lawful log) (hd : Follows log d) : Lawful (log ++ [d]) := by
  intro past e hpast
  rcases List.prefix_concat_iff.mp hpast with heq | hpast
  · obtain ⟨rfl, rfl⟩ := List.append_singleton_inj.mp heq
    exact hd
  · exact h past e hpast

theorem getLast?_ne_arrived (hd : d.arrival? = none) (h : HeldPacket) :
    (log ++ [d]).getLast? ≠ some (.arrived h) := by
  rw [List.getLast?_concat]
  rintro ⟨⟩
  cases hd

end Deed

namespace Node
open Deed

variable {n₀ n n' : Node} {h : HeldPacket} {rest : List HeldPacket} {log : List Deed} {d : Deed}
  {v : View} {parked : List ParkedSend} {c : ConnectionId} {source : Proc} {e : Envelope}
  {command : Command} {i : Incident} {incidents : List Incident}

/-! ### The account of a node -/

/-- A node whose deeds so far are `log`. -/
structure Recounted (n₀ : Node) (log : List Deed) (n : Node) : Prop where
  explained : Explained n₀ log n
  fifo : n.fifo.members = standing log
  causal : n.causal.members = standing log
  distinct : ∀ v, n.membership.view = some v → v.members.Nodup
  lawful : Lawful log

/-- All packets that came are handed over or at hand, those in `rest` yet to be routed. -/
structure Accounts (n₀ : Node) (rest : List HeldPacket) (log : List Deed) (n : Node) : Prop
    extends Recounted n₀ log n where
  away : ∀ h ∈ n.held, h.source ∉ standing log
  order : ∀ s, handovers s log ++ (n.held ++ rest).filter (·.source = s) = arrivals s log
  room : (n.held ++ rest).length ≤ heldLimit
  prompt : ∀ h, log.getLast? = some (.arrived h) → rest = [h]

theorem Recounted.append (hn : Recounted n₀ log n) (hdoes : Does n d n') (hd : Follows log d)
    (hv : ∀ v, d.view? = some v → v.members.Nodup) : Recounted n₀ (log ++ [d]) n' where
  explained := hn.explained.trans hdoes.explained
  fifo := by
    have hmembers : n'.fifo.members = (d.onFifo n.fifo).members :=
      congrArg FifoLayer.members hdoes.explained.fifo
    rw [hmembers, members_onFifo hv, hn.fifo, standing_append_singleton]
  causal := by
    have hmembers : n'.causal.members = (d.onCausal n.causal).members :=
      congrArg CausalLayer.members hdoes.explained.causal
    rw [hmembers, members_onCausal hv, hn.causal, standing_append_singleton]
  distinct := by
    rw [hdoes.membership]
    exact hn.distinct
  lawful := hn.lawful.append hd

theorem Accounts.aside (hn : Accounts n₀ rest log n) (ha : Aside n n') :
    Accounts n₀ rest log n' where
  explained := by
    have hall : Explained n₀ (log ++ []) n' := hn.explained.trans ha.explained
    rwa [List.append_nil] at hall
  fifo := (congrArg FifoLayer.members ha.fifo).trans hn.fifo
  causal := (congrArg CausalLayer.members ha.causal).trans hn.causal
  distinct := by
    rw [ha.membership]
    exact hn.distinct
  lawful := hn.lawful
  away := by
    rw [ha.held]
    exact hn.away
  order := by
    rw [ha.held]
    exact hn.order
  room := by
    rw [ha.held]
    exact hn.room
  prompt := hn.prompt

/-- Nothing of a member is held. -/
theorem Accounts.none_held (hn : Accounts n₀ rest log n) {s : Proc} (hs : s ∈ standing log) :
    n.held.filter (·.source = s) = [] := by
  refine List.filter_eq_nil_iff.mpr fun g hg => ?_
  have hne : g.source ≠ s := fun he => hn.away g hg (he ▸ hs)
  simpa using hne

theorem Accounts.held_order (hn : Accounts n₀ [] log n) (s : Proc) :
    handovers s log ++ n.held.filter (·.source = s) = arrivals s log := by
  have horder := hn.order s
  rwa [List.append_nil] at horder

/-- Once nothing is left to route, all that came from members is handed over. -/
theorem Accounts.caught_up (hn : Accounts n₀ [] log n) {s : Proc} (hs : s ∈ standing log) :
    handovers s log = arrivals s log := by
  rw [← hn.held_order s, hn.none_held hs, List.append_nil]

theorem Accounts.follows (hn : Accounts n₀ [] log n) (hd : d.isRouting = false) :
    Follows log d := by
  have hlast (g : HeldPacket) : log.getLast? ≠ some (.arrived g) :=
    fun hg => List.cons_ne_nil _ _ (hn.prompt g hg).symm
  cases d with
  | routed => cases hd
  | arrived | installed | fifoSent | causalSent => exact ⟨hlast, fun s hs => hn.caught_up hs⟩

/-! ### A packet is routed -/

theorem Recounted.membersFor (hn : Recounted n₀ log n) {packet : OrderPacket} :
    n.membersFor packet = standing log := by
  cases packet
  · exact hn.fifo
  · exact hn.causal

theorem Accounts.follows_routing (hn : Accounts n₀ (h :: rest) log n) :
    Follows log (n.routing h) := by
  refine ⟨fun g hg => (List.cons.inj (hn.prompt g hg)).1, hn.fifo, hn.causal, ?_⟩
  rw [hn.membersFor, decide_eq_true_iff]

/-- As long as there is room, no packet is driven out. -/
theorem held_hold (hroom : n.held.length < heldLimit) : (n.hold h).held = n.held ++ [h] := by
  change n.held.drop (n.held.length + 1 - heldLimit) ++ [h] = n.held ++ [h]
  rw [Nat.sub_eq_zero_of_le hroom, List.drop_zero]

theorem Accounts.has_room (hn : Accounts n₀ (h :: rest) log n) : n.held.length < heldLimit := by
  have hroom := hn.room
  rw [List.length_append, List.length_cons] at hroom
  omega

/-- A packet of a member may go before those that are held, as none of them is of its source. -/
theorem Accounts.order_handed (hn : Accounts n₀ (h :: rest) log n) (hs : h.source ∈ standing log)
    (s : Proc) : handovers s log ++ [h].filter (·.source = s) ++
      (n.held ++ rest).filter (·.source = s) = arrivals s log := by
  have hswap : [h].filter (·.source = s) ++ n.held.filter (·.source = s) =
      n.held.filter (·.source = s) ++ [h].filter (·.source = s) := by
    by_cases hsource : h.source = s
    · rw [hn.none_held (hsource ▸ hs), List.append_nil, List.nil_append]
    · rw [List.filter_cons_of_neg (by simpa using hsource), List.filter_nil, List.append_nil,
        List.nil_append]
  rw [← hn.order s, List.append_cons n.held h rest, List.append_assoc]
  simp only [List.filter_append]
  rw [← List.append_assoc ([h].filter _), hswap]

/-- A packet of a member is handed to its layer. -/
theorem Accounts.hand (hn : Accounts n₀ (h :: rest) log n) (hs : h.source ∈ standing log) :
    Accounts n₀ rest (log ++ [n.routing h]) (n.routePacket h) := by
  have hdeed : n.routing h = .routed h n.fifo.members n.causal.members true := by
    rw [routing, hn.membersFor, decide_eq_true hs]
  obtain ⟨hdoes, hheld⟩ := routePacket_handed (n := n) (h := h) (hn.membersFor ▸ hs)
  rw [← hdeed] at hdoes
  exact {
    toRecounted := hn.toRecounted.append hdoes hn.follows_routing nofun
    away := by
      rw [hheld, standing_append_singleton]
      exact hn.away
    order s := by
      rw [hheld, handovers_append, arrivals_append, hdeed]
      exact (hn.order_handed hs s).trans (List.append_nil _).symm
    room := by
      have hroom := hn.room
      rw [List.length_append, List.length_cons] at hroom
      rw [hheld, List.length_append]
      omega
    prompt g hg := (getLast?_ne_arrived rfl g hg).elim }

/-- A packet of any other process is held behind those that are held. -/
theorem Accounts.putBy (hn : Accounts n₀ (h :: rest) log n) (hs : h.source ∉ standing log) :
    Accounts n₀ rest (log ++ [n.routing h]) (n.routePacket h) := by
  have hdeed : n.routing h = .routed h n.fifo.members n.causal.members false := by
    rw [routing, hn.membersFor, decide_eq_false hs]
  have hheld : (n.hold h).held = n.held ++ [h] := held_hold hn.has_room
  have hdoes : Does n (n.routing h) (n.hold h) := by
    rw [hdeed]
    exact does_held
  rw [routePacket_held (hn.membersFor ▸ hs)]
  exact {
    toRecounted := hn.toRecounted.append hdoes hn.follows_routing nofun
    away := by
      rw [hheld, standing_append_singleton]
      intro g hg
      rcases List.mem_append.mp hg with hg | hg
      · exact hn.away g hg
      · rwa [List.mem_singleton.mp hg]
    order s := by
      have hnone : handovers s [n.routing h] = [] ∧ arrivals s [n.routing h] = [] := by
        rw [hdeed]
        exact ⟨rfl, rfl⟩
      rw [hheld, handovers_append, arrivals_append, hnone.1, hnone.2, List.append_nil,
        List.append_nil, ← List.append_cons]
      exact hn.order s
    room := by
      rw [hheld, ← List.append_cons]
      exact hn.room
    prompt g hg := (getLast?_ne_arrived rfl g hg).elim }

theorem Accounts.route (hn : Accounts n₀ (h :: rest) log n) :
    Accounts n₀ rest (log ++ [n.routing h]) (n.routePacket h) := by
  by_cases hs : h.source ∈ standing log
  · exact hn.hand hs
  · exact hn.putBy hs

/-! ### Other deeds -/

/-- A packet has come. -/
theorem Accounts.arrive (hn : Accounts n₀ [] log n) (hroom : n.held.length < heldLimit) :
    Accounts n₀ [h] (log ++ [.arrived h]) n := by
  have haside : Aside n n := .refl
  have hdoes : Does n (.arrived h) n := haside.does rfl rfl rfl rfl rfl
  exact {
    toRecounted := hn.toRecounted.append hdoes (hn.follows rfl) nofun
    away := by
      rw [standing_append_singleton]
      exact hn.away
    order s := by
      have hnone : handovers s [.arrived h] = [] := rfl
      have hone : arrivals s [.arrived h] = [h].filter (·.source = s) := rfl
      rw [handovers_append, arrivals_append, hnone, hone, List.filter_append, ← hn.held_order s,
        List.append_nil, List.append_assoc]
    room := by
      rw [List.length_append, List.length_singleton]
      exact hroom
    prompt g hg := by
      rw [List.getLast?_concat] at hg
      cases hg
      rfl }

/-- A deed that concerns no packet from outside. -/
theorem Accounts.other (hn : Accounts n₀ [] log n) (hdoes : Does n d n') (hheld : n'.held = n.held)
    (hview : d.view? = none) (harrival : d.arrival? = none) (hd : d.isRouting = false) :
    Accounts n₀ [] (log ++ [d]) n' := by
  have hhanded : d.handed? = none := by
    cases d with
    | routed => cases hd
    | arrived | installed | fifoSent | causalSent => rfl
  exact {
    toRecounted := hn.toRecounted.append hdoes (hn.follows hd) (by simp [hview])
    away := by
      rw [hheld, standing_append_singleton, hview]
      exact hn.away
    order s := by
      have hnone : handovers s [d] = [] ∧ arrivals s [d] = [] := by
        simp [handovers, arrivals, hhanded, harrival]
      rw [hheld, handovers_append, arrivals_append, hnone.1, hnone.2, ← hn.held_order s]
      simp only [List.append_nil]
    room := by
      rw [hheld]
      exact hn.room
    prompt g hg := (getLast?_ne_arrived harrival g hg).elim }

/-- The layers move to a view, and all that was held is to be routed anew. -/
theorem Accounts.moveTo (hn : Accounts n₀ [] log n) (hv : v.members.Nodup) :
    Accounts n₀ (n.moveTo v).held (log ++ [.installed v]) { n.moveTo v with held := [] } := by
  obtain ⟨hdoes, hheld⟩ := does_moveTo (n := n) (v := v)
  exact {
    toRecounted := hn.toRecounted.append hdoes.holding (hn.follows rfl) fun w hw => by
      rwa [← Option.some.inj hw]
    away := nofun
    order s := by
      have hnone : handovers s [.installed v] = [] ∧ arrivals s [.installed v] = [] := ⟨rfl, rfl⟩
      rw [handovers_append, arrivals_append, hnone.1, hnone.2, ← hn.held_order s,
        List.append_nil, List.append_nil, List.nil_append, hheld]
    room := by
      have hroom := hn.room
      rw [List.append_nil] at hroom
      rwa [List.nil_append, hheld]
    prompt g hg := (getLast?_ne_arrived rfl g hg).elim }

/-! ### Through a whole installation -/

theorem Accounts.routeAll {hs : List HeldPacket} (hn : Accounts n₀ hs log n) :
    Accounts n₀ [] (log ++ n.routings hs) (hs.foldl routePacket n) := by
  induction hs generalizing n log with
  | nil => rwa [routings, List.append_nil]
  | cons h hs ih =>
    rw [routings, List.append_cons]
    exact ih hn.route

theorem Accounts.admitAll (hn : Accounts n₀ [] log n) :
    Accounts n₀ [] (log ++ n.admissions parked) (n.admitAll parked) := by
  -- The send on which it stops was given to the layer too, which refused it.
  induction parked generalizing n log with
  | nil =>
    rw [admissions, List.append_nil]
    exact hn.aside ⟨rfl, rfl, rfl, rfl, rfl⟩
  | cons s parked ih =>
    rw [admissions, Node.admitAll]
    split
    · rw [List.append_cons]
      cases hs : n.tryCausal s with
      | ok n' =>
        obtain ⟨hdoes, hheld⟩ := does_tryCausal hs
        exact ih (hn.other hdoes hheld rfl rfl rfl)
      | error s' =>
        rw [List.append_nil]
        exact hn.other (does_tryCausal_parked hs) rfl rfl rfl rfl
    · rw [List.append_nil]
      exact hn.aside ⟨rfl, rfl, rfl, rfl, rfl⟩

theorem Accounts.install (hn : Accounts n₀ [] log n) (hv : v.members.Nodup) :
    Accounts n₀ [] (log ++ n.installing v) (n.install v) := by
  -- The held packets become those to be routed; some of them are held again.
  have hreplayed := (hn.moveTo hv).routeAll
  rw [install_eq, installing, List.append_cons, ← List.append_assoc]
  exact hreplayed.admitAll

theorem Accounts.installAll {vs : List View} (hn : Accounts n₀ [] log n)
    (hvs : ∀ v ∈ vs, v.members.Nodup) :
    Accounts n₀ [] (log ++ n.installings vs) (vs.foldl Node.install n) := by
  induction vs generalizing n log with
  | nil => rwa [installings, List.append_nil]
  | cons v vs ih =>
    rw [installings, ← List.append_assoc]
    exact ih (hn.install (hvs v List.mem_cons_self)) fun w hw => hvs w (List.mem_cons_of_mem _ hw)

theorem Accounts.applyMembership {o : MembershipOutput} {membership : MembershipLayer}
    (hn : Accounts n₀ [] log n) (ho : MembershipLayer.Distinct o membership) :
    Accounts n₀ [] (log ++ { n with membership }.membershipDeeds o)
      ({ n with membership }.applyMembership o) := by
  have hmembership : Accounts n₀ [] log { n with membership } :=
    { hn with
      explained := ⟨hn.explained.fifo, hn.explained.causal, hn.explained.views⟩
      distinct := ho.view }
  have hnone : (o.abcast.map NodeEvent.abcast).filterMap NodeEvent.view? = [] := by
    simp [List.filterMap_map, Function.comp_def, NodeEvent.view?]
  rw [applyMembership_eq]
  exact ((hmembership.aside aside_prepare).installAll ho.views).aside (aside_report hnone)

/-! ### Through a run -/

theorem Accounts.silent (hn : Accounts n₀ [] log n) (ha : Aside n n') :
    Accounts n₀ [] (log ++ []) n' := by
  rw [List.append_nil]
  exact hn.aside ha

theorem Accounts.routed (hn : Accounts n₀ [] log n) (hroom : n.held.length < heldLimit) :
    Accounts n₀ [] (log ++ n.routeDeeds source e) (n.route source e) := by
  cases e with
  | state t =>
    rw [routeDeeds, Node.route]
    cases h : n.membership.deliverState t with
    | error e => exact hn.silent .refl
    | ok r => exact hn.applyMembership (MembershipLayer.distinct_deliverState hn.distinct h)
  | fifo packet | causal packet =>
    rw [routeDeeds, List.append_cons]
    exact (hn.arrive hroom).route

theorem Accounts.onFrame {payload : Bytes} (hn : Accounts n₀ [] log n)
    (hroom : n.held.length < heldLimit) :
    Accounts n₀ [] (log ++ n.frameDeeds c payload) (n.onFrame c payload) := by
  rw [frameDeeds, Node.onFrame]
  cases n.peers.ownerOf? c with
  | none => exact hn.silent .refl
  | some source =>
    cases Envelope.decode payload with
    | ok e => exact hn.routed hroom
    | error e => exact hn.silent .refl

theorem Accounts.causalSend {s : ParkedSend} (hn : Accounts n₀ [] log n) :
    Accounts n₀ [] (log ++ if n.parked = [] then
      [.causalSent s.request.payload s.request.destinations] else []) (n.causalSend s) := by
  rw [Node.causalSend]
  split
  · cases hs : n.tryCausal s with
    | ok n' =>
      obtain ⟨hdoes, hheld⟩ := does_tryCausal hs
      exact hn.other hdoes hheld rfl rfl rfl
    | error s' => exact hn.other (does_tryCausal_parked hs) rfl rfl rfl rfl
  · exact hn.silent ⟨rfl, rfl, rfl, rfl, rfl⟩

theorem Accounts.onCommand (hn : Accounts n₀ [] log n) :
    Accounts n₀ [] (log ++ n.commandDeeds command) (n.onCommand command) := by
  cases command with
  | fifoSend payload dests =>
    have hsend : n.onCommand (.fifoSend payload dests) =
        n.takeFifo (n.fifo.send payload (dests.resolve n.fifo.members)) := by
      rw [Node.onCommand]
      cases n.fifo.send payload (dests.resolve n.fifo.members) <;> rfl
    rw [hsend]
    exact hn.other does_fifoSend.1 does_fifoSend.2 rfl rfl rfl
  | causalSend t payload dests =>
    exact hn.causalSend (s := ⟨t, payload, dests.resolve n.causal.members⟩)
  | join p => exact hn.applyMembership (MembershipLayer.distinct_silent hn.distinct rfl)
  | remove p => exact hn.applyMembership (MembershipLayer.distinct_silent hn.distinct rfl)
  | adeliver op => exact hn.applyMembership (MembershipLayer.distinct_adeliver hn.distinct)
  | view t => exact hn.silent ⟨rfl, rfl, rfl, rfl, rfl⟩

theorem Accounts.step (hn : Accounts n₀ [] log n) (hroom : n.held.length < heldLimit) :
    Accounts n₀ [] (log ++ n.deeds i) (n.step i) := by
  cases i with
  | opening members =>
    rw [deeds, Node.step]
    cases h : n.membership.init members with
    | error e => exact hn.silent .refl
    | ok r => exact hn.applyMembership (MembershipLayer.distinct_init hn.distinct h)
  | command c => exact hn.onCommand
  | admission => exact hn.admitAll
  | reconnection => exact hn.silent aside_reconnect
  | exchange queue transport => exact hn.silent ⟨rfl, rfl, rfl, rfl, rfl⟩
  | event e =>
    cases e with
    | accepted | connected => exact hn.silent aside_onEstablished
    | closed | broken => exact hn.silent aside_onLost
    | received c payload => exact hn.onFrame hroom
    | ready c => exact hn.silent ⟨rfl, rfl, rfl, rfl, rfl⟩

theorem Accounts.run (hn : Accounts n₀ [] log n)
    (hroom : ∀ before, before <+: incidents → (n.run before).held.length < heldLimit) :
    Accounts n₀ [] (log ++ n.history incidents) (n.run incidents) := by
  -- Between incidents nothing is left to route, so each starts from where the account stands.
  induction incidents generalizing n log with
  | nil => exact hn.silent .refl
  | cons i incidents ih =>
    rw [Node.history, ← List.append_assoc]
    refine ih (hn.step (hroom [] List.nil_prefix)) fun before hbefore => ?_
    exact hroom (i :: before) (List.cons_prefix_cons.mpr ⟨rfl, hbefore⟩)

theorem Blank.accounts (hn : n.Blank) : Accounts n [] [] n where
  explained := ⟨rfl, rfl, (List.append_nil _).symm⟩
  fifo := hn.fifo
  causal := hn.causal
  distinct v hv := by cases hn.view.symm.trans hv
  lawful past d hpast := by
    have hlen := hpast.length_le
    rw [List.length_append, List.length_singleton] at hlen
    cases hlen
  away h hh := by
    rw [hn.held] at hh
    cases hh
  order s := by rw [hn.held]; rfl
  room := by rw [hn.held]; exact Nat.zero_le _
  prompt h hh := by cases hh

/-- A packet that has come is routed before anything else is done. -/
theorem Accounts.routed_next (hn : Accounts n₀ [] log n) {past after : List Deed} {h : HeldPacket}
    (hlog : log = past ++ .arrived h :: after) :
    ∃ fifo causal given rest, after = .routed h fifo causal given :: rest := by
  cases after with
  | nil =>
    have hlast : log.getLast? = some (.arrived h) := by rw [hlog, List.getLast?_concat]
    exact (List.cons_ne_nil _ _ (hn.prompt h hlast).symm).elim
  | cons d rest =>
    have hpast : (past ++ [.arrived h]) ++ [d] <+: log := ⟨rest, by rw [hlog]; simp⟩
    have hlast : (past ++ [Deed.arrived h]).getLast? = some (.arrived h) := List.getLast?_concat
    have hfollows : Follows (past ++ [.arrived h]) d := hn.lawful _ _ hpast
    cases d with
    | routed g fifo causal given =>
      obtain rfl : g = h := hfollows.1 h hlast
      exact ⟨fifo, causal, given, rest, rfl⟩
    | arrived | installed | fifoSent | causalSent => exact (hfollows.1 h hlast).elim

/-- All that came from members is handed over whenever nothing is left to route. -/
theorem Accounts.settled (hn : Accounts n₀ [] log n) {past : List Deed} (hpast : past <+: log)
    (hnext : ∀ d, past ++ [d] <+: log → d.isRouting = false) {s : Proc} (hs : s ∈ standing past) :
    handovers s past = arrivals s past := by
  obtain ⟨rest, rfl⟩ := hpast
  cases rest with
  | nil =>
    rw [List.append_nil] at hn
    exact hn.caught_up hs
  | cons d rest =>
    have hd : past ++ [d] <+: past ++ d :: rest := ⟨rest, by simp⟩
    have hfollows : Follows past d := hn.lawful _ _ hd
    have hrouting := hnext d hd
    cases d with
    | routed => cases hrouting
    | arrived | installed | fifoSent | causalSent => exact hfollows.2 s hs

/-- Packets are held until their source is a member, and none is lost or overtaken. What a node
does to its layers is told by its deeds, and both layers have the members of the last view
throughout. Whenever a packet is routed, which is at once when it comes and again at every
installation while it is held, it is handed over if its source is a member. When nothing is left to
route, all that came from members is handed over. What came from a process is what was handed over,
in this order, and behind it what is held. -/
theorem held_until_member (hn : n.Blank) (incidents : List Incident)
    (hroom : ∀ before, before <+: incidents → (n.run before).held.length < heldLimit) :
    let log := n.history incidents
    Explained n log (n.run incidents) ∧
    (∀ before, before <+: incidents →
      (n.run before).fifo.members = standing (n.history before) ∧
      (n.run before).causal.members = standing (n.history before)) ∧
    (∀ past h fifo causal given, past ++ [.routed h fifo causal given] <+: log →
      fifo = standing past ∧ causal = standing past ∧ (given = true ↔ h.source ∈ standing past)) ∧
    (∀ past h after, log = past ++ .arrived h :: after →
      ∃ fifo causal given rest, after = .routed h fifo causal given :: rest) ∧
    (∀ past, past <+: log → (∀ d, past ++ [d] <+: log → d.isRouting = false) →
      ∀ s ∈ standing past, handovers s past = arrivals s past) ∧
    ∀ s, handovers s log ++ (n.run incidents).held.filter (·.source = s) = arrivals s log := by
  intro log
  have hall (before : List Incident) (hbefore : before <+: incidents) :
      Accounts n [] (n.history before) (n.run before) :=
    hn.accounts.run fun first hfirst => hroom first (hfirst.trans hbefore)
  have hend : Accounts n [] log (n.run incidents) := hall incidents (List.prefix_refl _)
  refine ⟨hend.explained, fun before hbefore => ⟨(hall _ hbefore).fifo, (hall _ hbefore).causal⟩,
    fun past h fifo causal given hpast => (hend.lawful _ _ hpast).2,
    fun past h after => hend.routed_next, fun past hpast hnext s => hend.settled hpast hnext,
    hend.held_order⟩

/-- Two packets of `c` come before the view that adds it, one of them before any view. -/
theorem early_packets_held : let a : Proc := ⟨"a", 1, 0⟩
    let b : Proc := ⟨"b", 1, 0⟩
    let c : Proc := ⟨"c", 1, 0⟩
    let n : Node := {
      here := a, queue := ⟨1, [], by decide, by decide⟩, fifo := { here := a }
      causal := { here := a }, membership := { here := a }
      peers := { here := a, owners := [(0, b), (1, c)] }
      transport := { here := a, network := .isolated 49152 } }
    let incidents : List Incident := [.event (.received 0 [0, 0, 1, 1]),
      .event (.received 1 [0, 0, 1, 2]), .opening [a, b], .event (.received 1 [0, 1, 1, 3]),
      .command (.adeliver (.add c))]
    n.Blank ∧ (∀ before, before <+: incidents → (n.run before).held.length < heldLimit) ∧
    handovers c (n.history incidents) =
      [⟨c, .fifo ⟨0, [2]⟩⟩, ⟨c, .fifo ⟨1, [3]⟩⟩] := by
  intro a b c n incidents
  have hblank : n.Blank := ⟨rfl, rfl, rfl, rfl⟩
  have hroom : ∀ before, before <+: incidents → (n.run before).held.length < heldLimit := by
    have hall : ∀ before ∈ incidents.inits, (n.run before).held.length < heldLimit := by
      decide +kernel
    exact fun before hbefore => hall before ((List.mem_inits _ _).mpr hbefore)
  have harrivals : arrivals c (n.history incidents) =
      [⟨c, .fifo ⟨0, [2]⟩⟩, ⟨c, .fifo ⟨1, [3]⟩⟩] := by decide +kernel
  obtain ⟨-, -, -, -, hsettled, -⟩ := held_until_member hblank incidents hroom
  have hmember : c ∈ standing (n.history incidents) := by decide +kernel
  have hend : ∀ d, n.history incidents ++ [d] <+: n.history incidents → d.isRouting = false :=
    fun d hd => absurd hd.length_le (by simp)
  exact ⟨hblank, hroom, (hsettled _ (List.prefix_refl _) hend c hmember).trans harrivals⟩

end Node

end Multicast
