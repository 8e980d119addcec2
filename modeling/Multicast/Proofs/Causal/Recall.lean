import Multicast.Proofs.Causal.Lists

/-! What the layers of a group remember, and what became of the acknowledgements. -/
namespace Multicast

namespace History

/-- `p` has evicted the early acknowledgement of `i` by `d`. -/
def Evicted (h : History) (p : Proc) (i : MessageId) (d : Proc) : Prop :=
  ∃ e, (p, .evicted e) ∈ h ∧ e.id = i ∧ d ∈ e.acked

theorem Evicted.mono {h k : History} {p d : Proc} {i : MessageId} (he : Evicted h p i d)
    (hk : h ⊆ k) : Evicted k p i d := by
  obtain ⟨e, he, hi⟩ := he
  exact ⟨e, hk he, hi⟩

end History

namespace Group
open History

variable {g g' g₀ : Group} {p q a d : Proc} {c : Option CausalCall} {l : CausalLayer}
  {i : MessageId} {r : CausalRequest} {e : CausalEvent} {es : List CausalEvent}
  {flying : List Flight} {ok : Group → Action → Prop}

/-- The layer of `p` remembers what `p` has delivered from its members, and waits for members only
but for messages of its own. -/
structure Recalls (h : History) (p : Proc) (l : CausalLayer) : Prop where
  ready : l.initialized = true
  valid : l.delivered.Valid
  sound : ∀ i, l.delivered.contains i = true → HasDelivered h p i
  complete : ∀ i, HasDelivered h p i → i.sender ∈ l.members → l.delivered.contains i = true
  filled : ∀ e ∈ l.pending, e.2 ≠ []
  present : ∀ i d, i.sender ≠ p → l.Awaits i d → d ∈ l.members ∧ d ≠ l.here

theorem recalls_formed {members : List Proc} {window capacity : Proc → Nat} (h : members.Nodup) :
    Recalls (formed members window capacity).log p ((formed members window capacity).layers p) := by
  rw [layers_formed h]
  refine ⟨rfl, Delivered.valid_empty, ?_, ?_, ?_, ?_⟩
  · intro i hi
    cases hi
  · intro i hi
    simp [HasDelivered, formed] at hi
  · intro e he
    cases he
  · intro i d _ ha
    exact (CausalLayer.not_awaits_of_idle rfl ha).elim

theorem Recalls.mono {h k : History} (hl : Recalls h p l) (hk : h ⊆ k)
    (hn : ∀ i, HasDelivered k p i → HasDelivered h p i) : Recalls k p l :=
  { hl with
    sound := fun i hi => (hl.sound i hi).mono hk
    complete := fun i hi => hl.complete i (hn i hi) }

/-- As long as lists only shrink, nothing is forgotten of those who stay. -/
theorem recalls_act (hg : g.Sound) (hr : Recalls g.log p (g.layers p))
    (hs : (g.layers p).Step c es l)
    (hlist : ∀ ms, c = some (.init ms) ∨ c = some (.view ms) → ms ⊆ (g.layers p).members) :
    Recalls (g.absorb p es l).log p l where
  ready := CausalLayer.step_initialized hs hr.ready
  valid := CausalLayer.step_valid hs hr.valid
  sound i hi := by
    rcases (CausalLayer.step_contains hs hr.valid).mp hi with ⟨hold, -⟩ | hnew
    · exact (hr.sound i hold).mono log_subset_absorb
    · exact delivered_absorb.mpr (Or.inr ⟨rfl, hnew⟩)
  complete i hi hm := by
    rw [CausalLayer.step_contains hs hr.valid]
    rcases delivered_absorb.mp hi with hold | ⟨-, hnew⟩
    · left
      have hstay : i.sender ∈ (g.layers p).members := by
        rcases CausalLayer.step_list hs with he | hc
        · rwa [← he]
        · exact hlist _ hc hm
      refine ⟨hr.complete i hold hstay, ?_⟩
      rintro ⟨ms, rfl, -, -, hn⟩
      rw [CausalLayer.step_view hs] at hm
      exact hn hm
    · exact Or.inr hnew
  filled := CausalLayer.step_residual_ne_nil hs hr.filled
  present i d hi ha := by
    have hunused : (g.layers p).Unused := fun h => by simp [hr.ready] at h
    rcases CausalLayer.step_live hs hunused (hr.present i d hi) ha with h | ⟨r, he, -⟩
    · exact h
    · obtain ⟨-, rfl, -⟩ := CausalLayer.step_started hs he
      exact (hi (hg.here p)).elim

/-! ### Acknowledgements -/

/-- What can become of the acknowledgement of `i` by `d` to `p`. -/
inductive Accounted (g : Group) (p : Proc) (i : MessageId) (d : Proc) : Prop
  | flying (h : ⟨d, p, .ack i⟩ ∈ g.flying)
  | evicted (h : Evicted g.log p i d)
  | counted (h : ¬ (g.layers p).Awaits i d)
      (known : Known g.log p i ∨ (g.layers p).Acked i d)

theorem known_of_founded {h : History} (hf : Founded h p i d) : Known h p i := by
  rcases hf.taken with ⟨r, hr⟩ | ⟨payload, informed, ms, he, -⟩
  · exact ⟨_, hr, Or.inl rfl⟩
  · exact ⟨_, he, Or.inr rfl⟩

theorem awaits_of_has (hl : ∀ e ∈ l.pending, e.2 ≠ []) (h : l.pending.has i = true) :
    ∃ d, l.Awaits i d := by
  obtain ⟨⟨j, residual⟩, he, hj⟩ := List.any_eq_true.mp h
  obtain ⟨d, hd⟩ := List.exists_mem_of_ne_nil residual (hl _ he)
  have hj : j = i := of_decide_eq_true hj
  subst hj
  exact ⟨d, residual, he, hd⟩

section act
variable (hg : g.Sound) (hr : Recalls g.log p (g.layers p))
  (hs : (g.layers p).Step c es l) (hc : Cause ok g p c flying)
include hg hr

/-- An acknowledgement that arrives is counted, now or when its message arrives. -/
theorem counted_of_ack (hf : ∀ q i d, (g.layers q).Awaits i d → Founded g.log q i d)
    (hs : (g.layers p).Step (some (.deliver d (.ack i))) es l) (hi : i.sender ≠ p) :
    ¬ l.Awaits i d ∧ (Known g.log p i ∨ l.Acked i d) := by
  obtain ⟨hn, h | h | h⟩ := CausalLayer.step_ack hs
  · obtain ⟨d', hd'⟩ := awaits_of_has hr.filled h
    exact ⟨hn, Or.inl (known_of_founded (hf p i d' hd'))⟩
  · rw [CausalLayer.settled, hg.here, if_neg hi] at h
    exact ⟨hn, Or.inl (hr.sound i h).known⟩
  · exact ⟨hn, Or.inr h⟩

include hs hc

/-- A message arrives once from a process that stays a member. -/
theorem not_awaits_again (hi : i.sender ≠ p) (hn : ¬ (g.layers p).Awaits i d)
    (hk : Known g.log p i ∨ (g.layers p).Acked i d) : ¬ l.Awaits i d := by
  intro ha
  rcases CausalLayer.step_awaits hs ha with h | ⟨r, he, -⟩ | ⟨source, ds, payload, _, hcall, he, hd⟩
  · exact hn h
  · obtain ⟨-, rfl, -⟩ := CausalLayer.step_started hs he
    exact hi (hg.here p)
  · obtain ⟨-, -, -, hacked⟩ := CausalLayer.mem_residual.mp hd
    rcases hk with ⟨e, hmem, ht⟩ | hk
    · obtain ⟨rfl, -, -⟩ := started_of_heard hg hc hcall
      obtain ⟨-, ⟨r, -, rfl, -⟩ | ⟨source, _, _, hcall', hm, hfresh, -⟩⟩ :=
        CausalLayer.step_delivered hs he
      · exact hi (hg.here p)
      · have hdelivered : HasDelivered g.log p i := by
          rcases ht with ht | ht
          · obtain ⟨r, rfl⟩ := CausalEvent.starts_iff.mp ht
            exact (hi (hg.started _ _ _ hmem).1).elim
          · exact ⟨e, hmem, ht⟩
        have hcontains := hr.complete i hdelivered (by simp_all)
        rw [← Delivered.insert?_eq_none hr.valid] at hcontains
        simp [hcontains] at hfresh
    · exact hacked hk

end act

theorem accounted_act (hg : g.Sound) (hr : ∀ p, Recalls g.log p (g.layers p))
    (hf : ∀ q i d, (g.layers q).Awaits i d → Founded g.log q i d)
    (hs : (g.layers p).Step c es l) (hc : Cause ok g p c flying) (hi : i.sender ≠ q)
    (ha : g.Accounted q i d) : ({ g with flying }.absorb p es l).Accounted q i d := by
  have hsub : g.log ⊆ ({ g with flying }.absorb p es l).log := log_subset_absorb (g := g) (l := l)
  cases ha with
  | flying h =>
    rcases hc.mem_flying h with h | ⟨hq, hcall⟩
    · exact .flying (mem_absorb_flying.mpr (Or.inl h))
    · dsimp only at hq hcall
      subst hq hcall
      obtain ⟨hn, hk⟩ := counted_of_ack hg (hr q) hf hs hi
      refine .counted (by rwa [absorb_layers_self]) ?_
      rw [absorb_layers_self]
      exact hk.imp (·.mono hsub) id
  | evicted h => exact .evicted (h.mono hsub)
  | counted h known =>
    by_cases hq : q = p
    · subst hq
      have hn := not_awaits_again hg (hr q) hs hc hi h known
      rcases known with hk | hk
      · exact .counted (by rwa [absorb_layers_self]) (Or.inl (hk.mono hsub))
      · rcases CausalLayer.step_acked_lost hs hk with hk | ⟨e, he, hd⟩ | ⟨e, he, hd⟩
        · exact .counted (by rwa [absorb_layers_self]) (Or.inr (by rwa [absorb_layers_self]))
        · exact .evicted ⟨e, mem_absorb_log.mpr (Or.inr ⟨rfl, he⟩), hd⟩
        · refine .counted (by rwa [absorb_layers_self]) (Or.inl ?_)
          exact ⟨e, mem_absorb_log.mpr (Or.inr ⟨rfl, he⟩), Or.inr hd⟩
    · refine .counted (by rwa [absorb_layers_of_ne hq]) ?_
      rw [absorb_layers_of_ne hq]
      exact known.imp (·.mono hsub) id

/-- A process that delivers a message acknowledges it to all others that take part in it. -/
theorem accounted_of_delivery (hg : g.Sound) (hs : (g.layers p).Step c es l)
    (hc : Cause ok g p c flying) (he : e ∈ es) (hd : e.Delivers i)
    (hr : Started (g.absorb p es l).log i r) (hq : q ∈ r.destinations ∨ q = i.sender)
    (hne : q ≠ p) : ({ g with flying }.absorb p es l).Accounted q i p := by
  obtain ⟨payload, informed, ms, rfl⟩ := CausalEvent.delivers_iff.mp hd
  have hinformed : q ∈ informed := by
    obtain ⟨-, ⟨s, hes, rfl, -, rfl⟩ | ⟨source, ds, _, hcall, -, -, rfl⟩⟩ :=
      CausalLayer.step_delivered hs he
    · have hsender : (g.layers p).nextId.sender = p := hg.here p
      have hstart : .started (g.layers p).nextId s ∈ es := by
        rw [hes]
        exact CausalLayer.mem_startEvents.mpr (Or.inl rfl)
      have hrs := unique_act hg hs hr (mem_absorb_log.mpr (Or.inr ⟨hsender, hstart⟩))
      subst hrs
      rw [hsender] at hq
      exact CausalLayer.mem_audience.mpr ⟨hq.resolve_right hne, by rwa [hg.here]⟩
    · obtain ⟨-, -, hstarted⟩ := started_of_heard hg hc hcall
      have hrs := unique_act hg hs hr (hstarted.mono log_subset_absorb)
      subst hrs
      simp only [CausalLayer.informed, List.mem_filter, Proc.mem_firsts, List.mem_append, hg.here]
      exact ⟨hq.imp id (by simp [·]), decide_eq_true hne⟩
  exact .flying (mem_absorb_flying.mpr
    (Or.inr ⟨rfl, _, he, ack_posted.mpr ⟨_, _, _, rfl, hinformed⟩⟩))

end Group

end Multicast
