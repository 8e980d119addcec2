import Mathlib.Data.List.Nodup
import Mathlib.Data.List.Perm.Subperm
import Multicast.Proofs.Causal.Account
import Multicast.Proofs.Causal.FixedGroup

/-! What the layers of a group with a fixed member list remember of acknowledgements that come
early: of each other member at most one message, whatever the network loses. -/
namespace Multicast

/-- A message from another process for `p` that `p` has not delivered. -/
structure History.Due (h : History) (p : Proc) (i : MessageId) : Prop where
  other : i.sender ≠ p
  addressed : ∃ r, Started h i r ∧ p ∈ r.destinations
  undelivered : ¬ HasDelivered h p i

namespace Group
open History

variable {g g' g₀ : Group} {p q d : Proc} {c : Option CausalCall} {l : CausalLayer}
  {i j : MessageId} {r s : CausalRequest} {es : List CausalEvent} {ids : List MessageId}
  {flying : List Flight} {ok : Group → Action → Prop} {members ms : List Proc}
  {window capacity : Proc → Nat}

/-- Members send, and the network does what it likes. -/
def Closed (members : List Proc) : Action → Prop
  | .send p _ _ => p ∈ members
  | .deliver _ | .copy _ | .lose _ => True
  | .init .. | .view .. => False

instance : DecidablePred (Closed members) := fun a =>
  match a with
  | .send p _ _ => inferInstanceAs (Decidable (p ∈ members))
  | .deliver _ | .copy _ | .lose _ => isTrue trivial
  | .init .. | .view .. => isFalse id

/-- Only members start messages, or have some to start. -/
structure Confined (members : List Proc) (g : Group) : Prop where
  queued : ∀ p, (g.layers p).queue ≠ [] → p ∈ members
  started : ∀ p i r, (p, .started i r) ∈ g.log → p ∈ members

/-- What holds while the member list is fixed. -/
structure Steady (members : List Proc) (g : Group) : Prop where
  sound : g.Sound
  within : g.Within members
  keeps : ∀ d ∈ members, g.Keeps d
  confined : g.Confined members
  recalls : ∀ p, Recalls g.log p (g.layers p)
  abroad : g.Abroad
  safe : Safe g.log

section steady
variable (hok : ∀ g a, ok g a → Closed members a)
include hok

theorem not_list_of_closed (hc : Cause ok g p c flying) :
    ¬ (c = some (.init ms) ∨ c = some (.view ms)) := by
  intro hl
  rcases hc.allowed_of_list hl with h | h
  · exact hok _ _ h
  · exact hok _ _ h

theorem member_of_send {payload : Bytes} {destinations : List Proc}
    (hc : Cause ok g p (some (.send payload destinations)) flying) : p ∈ members := by
  cases hc with
  | @own a c allowed own =>
    have hmem := hok g a allowed
    cases a with
    | send q payload destinations =>
      obtain ⟨rfl, -⟩ : q = p ∧ _ := by simpa [Action.own?] using own
      exact hmem
    | init | view => exact hmem.elim
    | deliver | copy | lose => simp [Action.own?] at own

theorem confined_act (hg : g.Confined members) (hs : (g.layers p).Step c es l)
    (hc : Cause ok g p c flying) : ({ g with flying }.absorb p es l).Confined members := by
  have hsource : l.queue ≠ [] ∨ (∃ i r, .started i r ∈ es) → p ∈ members := by
    intro h
    rcases CausalLayer.step_origin hs h with hq | ⟨payload, destinations, rfl⟩
    · exact hg.queued p hq
    · exact member_of_send hok hc
  constructor
  · intro q hq
    by_cases hqp : q = p
    · subst hqp
      rw [absorb_layers_self] at hq
      exact hsource (Or.inl hq)
    · rw [absorb_layers_of_ne hqp] at hq
      exact hg.queued q hq
  · intro q i r hr
    rcases mem_absorb_log.mp hr with hold | ⟨rfl, hnew⟩
    · exact hg.started q i r hold
    · exact hsource (Or.inr ⟨i, r, hnew⟩)

theorem confined_reach (h : Reach ok g₀ g) (hg : g₀.Confined members) : g.Confined members := by
  induction h with
  | refl => exact hg
  | step _ micro ih =>
    cases micro with
    | act cause step => exact confined_act hok ih step cause
    | refuse | lose => exact ⟨ih.queued, ih.started⟩

theorem recalls_reach (h : Reach ok g₀ g) (hb : g₀.Blank)
    (hr : ∀ p, Recalls g₀.log p (g₀.layers p)) : ∀ p, Recalls g.log p (g.layers p) := by
  induction h with
  | refl => exact hr
  | @step g g' reach micro ih =>
    cases micro with
    | @act q c flying es l cause step =>
      intro p
      by_cases hp : p = q
      · subst hp
        rw [absorb_layers_self]
        exact recalls_act (g := g) (sound_reach reach (sound_blank hb)) (ih p) step
          fun ms hl => (not_list_of_closed hok cause hl).elim
      · rw [absorb_layers_of_ne hp]
        refine (ih p).mono (log_subset_absorb (g := g) (l := l)) fun i hi => ?_
        exact (delivered_absorb.mp hi).resolve_right fun h => hp h.1
    | refuse | lose => exact ih

theorem steady_reach (hnodup : members.Nodup)
    (h : Reach ok (formed members window capacity) g) : g.Steady members := by
  have hb : (formed members window capacity).Blank := blank_formed hnodup
  have hsound := sound_reach h (sound_blank hb)
  have hnone : ∀ g p ms, ¬ (ok g (.init p ms) ∨ ok g (.view p ms)) := by
    rintro g p ms (ha | ha)
    · exact hok _ _ ha
    · exact hok _ _ ha
  have hwithin := within_reach h (within_formed hnodup) fun g p ms ha => (hnone g p ms ha).elim
  have hkeeps : ∀ d ∈ members, g.Keeps d := fun d hd =>
    keeps_reach h (keeps_formed hnodup hd) fun g p ms ha => (hnone g p ms ha).elim
  have hconfined : (formed members window capacity).Confined members := by
    constructor
    · intro p hq
      rw [layers_formed hnodup] at hq
      exact (hq rfl).elim
    · intro p i r hr
      simp [formed] at hr
  exact {
    sound := hsound
    within := hwithin
    keeps := hkeeps
    confined := confined_reach hok h hconfined
    recalls := recalls_reach hok h hb fun _ => recalls_formed hnodup
    abroad := abroad_reach h hb
    safe := safe_of_ordered hsound (gated_reach h hb).2 fun i r hr d hd =>
      hkeeps d (hwithin.started _ i r hr d hd) }

end steady

theorem Steady.sender_member (hg : g.Steady members) (hr : Started g.log i r) :
    i.sender ∈ members := hg.confined.started _ i r hr

theorem Steady.sender_listed (hg : g.Steady members) (hr : Started g.log i r) :
    i.sender ∈ (g.layers p).members := (hg.keeps _ (hg.sender_member hr)).listed p
/-! ### Acknowledgements that come early -/

/-- Acknowledgements go to those who take part in the message. -/
def Addressed (g : Group) : Prop :=
  ∀ f ∈ g.flying, ∀ i, f.packet = .ack i →
    ∃ r, Started g.log i r ∧ (f.target ∈ r.destinations ∨ f.target = i.sender)

theorem addressed_act (hg : g.Sound) (hs : (g.layers p).Step c es l)
    (hc : Cause ok g p c flying) (hf : g.Addressed) :
    ({ g with flying }.absorb p es l).Addressed := by
  intro f hmem i hp
  have hsub : g.log ⊆ ({ g with flying }.absorb p es l).log := log_subset_absorb (g := g) (l := l)
  rcases mem_absorb_flying.mp hmem with hold | ⟨-, e, he, hack⟩
  · obtain ⟨r, hr, ht⟩ := hf f (hc.flying_subset hold) i hp
    exact ⟨r, hr.mono hsub, ht⟩
  · rw [hp] at hack
    obtain ⟨payload, informed, ms, rfl, ht⟩ := ack_posted.mp hack
    obtain ⟨-, ⟨r, hes, rfl, -, rfl⟩ | ⟨source, ds, _, hcall, -, -, rfl⟩⟩ :=
      CausalLayer.step_delivered hs he
    · have hsender : (g.layers p).nextId.sender = p := hg.here p
      have hstart : .started (g.layers p).nextId r ∈ es := by
        rw [hes]
        exact CausalLayer.mem_startEvents.mpr (Or.inl rfl)
      exact ⟨r, mem_absorb_log.mpr (Or.inr ⟨hsender, hstart⟩),
        Or.inl (CausalLayer.mem_audience.mp ht).1⟩
    · obtain ⟨rfl, -, hstarted⟩ := started_of_heard hg hc hcall
      refine ⟨_, hstarted.mono hsub, ?_⟩
      simp only [CausalLayer.informed, List.mem_filter, Proc.mem_firsts, List.mem_append,
        List.mem_cons, List.not_mem_nil, or_false, or_self] at ht
      exact ht.1

theorem addressed_reach (h : Reach ok g₀ g) (hb : g₀.Blank) : g.Addressed := by
  induction h with
  | refl => simp [Addressed, hb.flying]
  | step reach micro ih =>
    cases micro with
    | act cause step => exact addressed_act (sound_reach reach (sound_blank hb)) step cause ih
    | refuse | lose => exact fun f hf => ih f (List.mem_of_mem_erase hf)

/-- The tables of early acknowledgements have one entry for each of some messages that are due. -/
structure Expectant (g : Group) : Prop where
  nodup : ∀ p, ((g.layers p).early.map (·.id)).Nodup
  due : ∀ p, ∀ e ∈ (g.layers p).early, Due g.log p e.id

section early
variable (hg : g.Steady members) (hf : g.Addressed) (he : g.Expectant)
  (hs : (g.layers p).Step c es l) (hc : Cause ok g p c flying)
include hg hf hs hc

/-- An acknowledgement comes only to a process that takes part in the message. -/
theorem member_of_ack (h : c = some (.deliver q (.ack i))) : p ∈ members := by
  subst h
  obtain ⟨r, hr, hp | rfl⟩ := hf _ hc.flying_of_deliver i rfl
  · exact hg.within.started _ i r hr p hp
  · exact hg.sender_member hr

/-- An acknowledgement that is entered anew is for a message that is due. -/
theorem due_of_ack (h : c = some (.deliver q (.ack i)))
    (hn : (g.layers p).settled i = false) : Due g.log p i := by
  subst h
  obtain ⟨r, hr, hp⟩ := hf _ hc.flying_of_deliver i rfl
  have hne : i.sender ≠ p := by
    intro hi
    have hlt := (hg.sound.started _ i r hr).2
    rw [hi] at hlt
    simp [CausalLayer.settled, hg.sound.here, hi, hlt] at hn
  refine ⟨hne, ⟨r, hr, hp.resolve_right hne.symm⟩, ?_⟩
  intro hd
  have hcontains := (hg.recalls p).complete i hd (hg.sender_listed hr)
  simp [CausalLayer.settled, hg.sound.here, hne, hcontains] at hn

include he

theorem due_act {e : EarlyAck} (hmem : e ∈ l.early) :
    Due ({ g with flying }.absorb p es l).log p e.id := by
  obtain ⟨hsource, hnext⟩ := CausalLayer.step_early hs hmem
  have hbefore : Due g.log p e.id := by
    rcases hsource with ⟨f, hfmem, hid⟩ | ⟨q, hcall, hn⟩
    · rw [← hid]
      exact he.due p f hfmem
    · exact due_of_ack hg hf hs hc hcall hn
  obtain ⟨hne, ⟨r, hr, hp⟩, hn⟩ := hbefore
  refine ⟨hne, ⟨r, hr.mono (log_subset_absorb (g := g) (l := l)), hp⟩, ?_⟩
  intro hd
  rcases delivered_absorb.mp hd with hd | ⟨-, x, hx, hd⟩
  · exact hn hd
  · rw [hnext x hx hd] at hne
    exact hne (hg.sound.here p)

theorem expectant_act : ({ g with flying }.absorb p es l).Expectant where
  nodup q := by
    by_cases hq : q = p
    · subst hq
      rw [absorb_layers_self]
      exact CausalLayer.step_nodup_early hs (he.nodup q)
    · rw [absorb_layers_of_ne hq]
      exact he.nodup q
  due q e hmem := by
    by_cases hq : q = p
    · subst hq
      rw [absorb_layers_self] at hmem
      exact due_act hg hf he hs hc hmem
    · rw [absorb_layers_of_ne hq] at hmem
      obtain ⟨hne, ⟨r, hr, hp⟩, hn⟩ := he.due q e hmem
      refine ⟨hne, ⟨r, hr.mono (log_subset_absorb (g := g) (l := l)), hp⟩, ?_⟩
      intro hd
      exact hn ((delivered_absorb.mp hd).resolve_right fun h => hq h.1)

end early

theorem expectant_formed (h : members.Nodup) : (formed members window capacity).Expectant where
  nodup p := by
    rw [layers_formed h]
    exact List.nodup_nil
  due p e hmem := by
    rw [layers_formed h] at hmem
    cases hmem

/-- A process starts nothing while a destination is without an earlier message, so of one sender
there is at most one message that a destination has not delivered. -/
theorem undelivered_unique (hsafe : Safe g.log) (hi : Started g.log i r) (hj : Started g.log j s)
    (hsender : i.sender = j.sender) (hdi : d ∈ r.destinations) (hdj : d ∈ s.destinations)
    (hni : ¬ HasDelivered g.log d i) (hnj : ¬ HasDelivered g.log d j) : i = j := by
  have hj' : (i.sender, .started j s) ∈ g.log := by rwa [hsender]
  have hk : ∀ {h : History} {k t}, (i.sender, .started k t) ∈ h → Known h i.sender k :=
    fun hmem => ⟨_, hmem, Or.inl rfl⟩
  obtain ⟨past, after, hsplit⟩ := List.append_of_mem hj'
  have hmem : (i.sender, .started i r) ∈ g.log := hi
  rw [hsplit, List.mem_append, List.mem_cons] at hmem
  rcases hmem with hpast | heq | hafter
  · have hd := hsafe past after _ j s hsplit i r d (hk hpast) hi hdi
    exact (hni (hd.mono (subset_of_split hsplit))).elim
  · simp only [Prod.mk.injEq, CausalEvent.started.injEq, true_and] at heq
    exact heq.1
  · obtain ⟨mid, rest, rfl⟩ := List.append_of_mem hafter
    have hsplit' : g.log = (past ++ (i.sender, .started j s) :: mid) ++
        (i.sender, .started i r) :: rest := by
      rw [hsplit, List.append_assoc, List.cons_append]
    have hd := hsafe _ rest _ i r hsplit' j s d (hk (t := s) (by simp)) hj hdj
    exact (hnj (hd.mono (subset_of_split hsplit'))).elim

theorem nodup_senders (hsafe : Safe g.log) (hids : ids.Nodup) (hdue : ∀ i ∈ ids, Due g.log p i) :
    (ids.map (·.sender)).Nodup := by
  refine List.Nodup.map_on ?_ hids
  intro i hi j hj hij
  obtain ⟨-, ⟨r, hr, hpr⟩, hni⟩ := hdue i hi
  obtain ⟨-, ⟨s, hs, hps⟩, hnj⟩ := hdue j hj
  exact undelivered_unique hsafe hr hs hij hpr hps hni hnj

/-- There are fewer messages that are due than members. -/
theorem Steady.length_due (hg : g.Steady members) (hp : p ∈ members) (hids : ids.Nodup)
    (hdue : ∀ i ∈ ids, Due g.log p i) : ids.length < members.length := by
  have hsub : ids.map (·.sender) ⊆ members.erase p := by
    intro q hq
    obtain ⟨i, hi, rfl⟩ := List.mem_map.mp hq
    obtain ⟨hne, ⟨r, hr, -⟩, -⟩ := hdue i hi
    exact (List.mem_erase_of_ne hne).mpr (hg.sender_member hr)
  have hle := (List.Nodup.subperm (nodup_senders hg.safe hids hdue) hsub).length_le
  rw [List.length_map, List.length_erase_of_mem hp] at hle
  have hpos := List.length_pos_of_mem hp
  omega

section reach
variable (hok : ∀ g a, ok g a → Closed members a) (hnodup : members.Nodup)
  (h : Reach ok (formed members window capacity) g)
include hok hnodup h

theorem expectant_reach : g.Expectant := by
  induction h with
  | refl => exact expectant_formed hnodup
  | step reach micro ih =>
    cases micro with
    | act cause step =>
      exact expectant_act (steady_reach hok hnodup reach)
        (addressed_reach reach (blank_formed hnodup)) ih step cause
    | refuse | lose => exact ⟨ih.nodup, ih.due⟩

omit hok in
theorem earlyCapacity_reach : (g.layers p).earlyCapacity = capacity p := by
  induction h with
  | refl =>
    rw [layers_formed hnodup]
    rfl
  | @step g g' reach micro ih =>
    cases micro with
    | @act q c flying es l cause step =>
      by_cases hq : p = q
      · subst hq
        rw [absorb_layers_self, CausalLayer.step_earlyCapacity step, ih]
      · rw [absorb_layers_of_ne hq, ih]
    | refuse | lose => exact ih

/-- A table with room for one message of each other member never runs full. -/
theorem not_evicted (hroom : p ∈ members → members.length ≤ capacity p + 1) :
    (∀ e, (p, .evicted e) ∉ g.log) ∧ (g.layers p).stats.evictedEarlyAcks = 0 := by
  induction h with
  | refl =>
    rw [layers_formed hnodup]
    exact ⟨by simp [formed], rfl⟩
  | @step g g' reach micro ih =>
    cases micro with
    | @act q c flying es l cause step =>
      have hg := steady_reach hok hnodup reach
      have hf := addressed_reach reach (blank_formed hnodup)
      have he := expectant_reach hok hnodup reach
      have hnone : p = q → ∀ e, .evicted e ∉ es := by
        rintro rfl e hmem
        obtain ⟨q, i, hcall, hn, hnew, hfull⟩ := CausalLayer.step_evicted step hmem
        have hmember := member_of_ack hg hf step cause hcall
        have hids : (i :: (g.layers p).early.map (·.id)).Nodup := by
          refine List.nodup_cons.mpr ⟨fun hi => ?_, he.nodup p⟩
          obtain ⟨f, hfmem, hid⟩ := List.mem_map.mp hi
          exact hnew f hfmem hid
        have hdue : ∀ j ∈ i :: (g.layers p).early.map (·.id), Due g.log p j := by
          intro j hj
          rcases List.mem_cons.mp hj with rfl | hj
          · exact due_of_ack hg hf step cause hcall hn
          · obtain ⟨f, hfmem, rfl⟩ := List.mem_map.mp hj
            exact he.due p f hfmem
        have hfew := hg.length_due hmember hids hdue
        rw [List.length_cons, List.length_map] at hfew
        rw [earlyCapacity_reach hnodup reach] at hfull
        have := hroom hmember
        omega
      constructor
      · intro e hmem
        rcases mem_absorb_log.mp hmem with hold | ⟨hp, hnew⟩
        · exact ih.1 e hold
        · exact hnone hp e hnew
      · by_cases hq : p = q
        · subst hq
          rw [absorb_layers_self, CausalLayer.step_evictedEarlyAcks step (hnone rfl), ih.2]
        · rw [absorb_layers_of_ne hq, ih.2]
    | refuse | lose => exact ih

end reach

/-- A process remembers acknowledgements of at most one message of each other member that it has
not got yet. A table with room for so many evicts none. -/
theorem early_bounded (members : List Proc) (window capacity : Proc → Nat) (actions : List Action)
    (hnodup : members.Nodup) (hclosed : ∀ a ∈ actions, Closed members a) :
    let g := (formed members window capacity).run actions
    ∀ p ∈ members,
      ((g.layers p).early.map (·.id.sender)).Nodup ∧
      (∀ e ∈ (g.layers p).early, e.id.sender ∈ members ∧ e.id.sender ≠ p) ∧
      (g.layers p).early.length ≤ members.length - 1 ∧
      (members.length - 1 ≤ capacity p →
        (∀ e, (p, .evicted e) ∉ g.log) ∧ (g.layers p).stats.evictedEarlyAcks = 0) := by
  intro g p hp
  have hreach : Reach (fun _ a => Closed members a) (formed members window capacity) g :=
    reach_run fun _ a ha => hclosed a (ha.subset (by simp))
  have hg := steady_reach (fun _ _ h => h) hnodup hreach
  have he := expectant_reach (fun _ _ h => h) hnodup hreach
  have hdue : ∀ i ∈ (g.layers p).early.map (·.id), Due g.log p i := by
    intro i hi
    obtain ⟨e, hmem, rfl⟩ := List.mem_map.mp hi
    exact he.due p e hmem
  refine ⟨?_, ?_, ?_, ?_⟩
  · have hsenders := nodup_senders hg.safe (he.nodup p) hdue
    rwa [List.map_map] at hsenders
  · intro e hmem
    obtain ⟨hne, ⟨r, hr, -⟩, -⟩ := he.due p e hmem
    exact ⟨hg.sender_member hr, hne⟩
  · have hfew := hg.length_due hp (he.nodup p) hdue
    rw [List.length_map] at hfew
    omega
  · intro hroom
    exact not_evicted (fun _ _ h => h) hnodup hreach fun _ => by omega

/-- News of two messages overtakes them, and one of them is lost. -/
theorem overtaken_early_bounded : let a : Proc := ⟨"a", 1, 0⟩
    let b : Proc := ⟨"b", 1, 0⟩
    let c : Proc := ⟨"c", 1, 0⟩
    let d : Proc := ⟨"d", 1, 0⟩
    let actions : List Action := [.send a [] [b, c], .send d [] [b, c],
      .deliver ⟨a, b, .send ⟨a, 0⟩ [b, c] []⟩, .deliver ⟨d, b, .send ⟨d, 0⟩ [b, c] []⟩,
      .deliver ⟨b, c, .ack ⟨a, 0⟩⟩, .deliver ⟨b, c, .ack ⟨d, 0⟩⟩,
      .lose ⟨a, c, .send ⟨a, 0⟩ [b, c] []⟩]
    let g := (formed [a, b, c, d] (fun _ => 4) (fun _ => 3)).run actions
    (g.layers c).early.map (·.id) = [⟨a, 0⟩, ⟨d, 0⟩] ∧
      (g.layers c).early.length ≤ [a, b, c, d].length - 1 ∧
      (g.layers c).stats.evictedEarlyAcks = 0 := by
  intro a b c d actions g
  have hearly : (g.layers c).early.map (·.id) = [⟨a, 0⟩, ⟨d, 0⟩] := by decide
  obtain ⟨-, -, hfew, hroom⟩ := early_bounded [a, b, c, d] (fun _ => 4) (fun _ => 3) actions
    (by decide) (by decide) c (by decide)
  have hthree : [a, b, c, d].length - 1 ≤ 3 := by decide
  dsimp only [g] at hearly ⊢
  exact ⟨hearly, hfew, (hroom hthree).2⟩

end Group

end Multicast
