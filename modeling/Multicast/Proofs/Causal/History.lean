import Multicast.Proofs.Causal.Group

/-! What is on its way in a group, and what its layers remember, did happen. -/
namespace Multicast

abbrev History := List (Proc × CausalEvent)

namespace History
variable {h k before after : History} {p q d : Proc} {i : MessageId} {r : CausalRequest}

/-- A message goes by the request with which its sender started it. -/
def Started (h : History) (i : MessageId) (r : CausalRequest) : Prop :=
  (i.sender, .started i r) ∈ h

def HasDelivered (h : History) (p : Proc) (i : MessageId) : Prop := ∃ e, (p, e) ∈ h ∧ e.Delivers i

/-- `p` has started or delivered `i`. -/
def Known (h : History) (p : Proc) (i : MessageId) : Prop := ∃ e, (p, e) ∈ h ∧ e.TakesUp i

/-- `p` has delivered `i` under a list with `d`. -/
def Listed (h : History) (p : Proc) (i : MessageId) (d : Proc) : Prop :=
  ∃ payload informed ms, (p, .delivered i payload informed ms) ∈ h ∧ d ∈ ms

/-- When `d` delivers `j` it has delivered `i`. -/
def DeliversBefore (h : History) (d : Proc) (i j : MessageId) : Prop :=
  ∀ past after e, h = past ++ (d, e) :: after → e.Delivers j → HasDelivered past d i

instance : Decidable (Started h i r) := inferInstanceAs (Decidable (_ ∈ h))

theorem hasDelivered_iff : HasDelivered h p i ↔ ∃ x ∈ h, x.1 = p ∧ x.2.Delivers i := by
  simp [HasDelivered]

instance : Decidable (HasDelivered h p i) := decidable_of_iff _ hasDelivered_iff.symm

theorem Started.mono (hs : Started h i r) (hk : h ⊆ k) : Started k i r := hk hs

theorem HasDelivered.mono (hd : HasDelivered h p i) (hk : h ⊆ k) : HasDelivered k p i := by
  obtain ⟨e, he, hd⟩ := hd
  exact ⟨e, hk he, hd⟩

theorem Known.mono (hi : Known h p i) (hk : h ⊆ k) : Known k p i := by
  obtain ⟨e, he, ht⟩ := hi
  exact ⟨e, hk he, ht⟩

theorem Listed.mono (hl : Listed h p i d) (hk : h ⊆ k) : Listed k p i d := by
  obtain ⟨payload, informed, ms, he, hd⟩ := hl
  exact ⟨payload, informed, ms, hk he, hd⟩

theorem HasDelivered.known (hd : HasDelivered h p i) : Known h p i := by
  obtain ⟨e, he, hd⟩ := hd
  exact ⟨e, he, Or.inr hd⟩

end History

namespace CausalEvent
variable {e : CausalEvent} {i : MessageId}

theorem delivers_iff : e.Delivers i ↔ ∃ payload informed members,
    e = delivered i payload informed members := by
  cases e <;> simp [Delivers]

theorem starts_iff : e.Starts i ↔ ∃ r, e = started i r := by
  cases e <;> simp [Starts]

end CausalEvent

theorem split_append {α : Type} {xs ys before after : List α} {x : α}
    (h : xs ++ ys = before ++ x :: after) :
    (∃ rest, xs = before ++ x :: rest ∧ after = rest ++ ys) ∨
      ∃ mid, before = xs ++ mid ∧ ys = mid ++ x :: after := by
  rcases List.append_eq_append_iff.mp h with ⟨mid, hb, hy⟩ | ⟨mid, hx, hy⟩
  · exact Or.inr ⟨mid, hb, hy⟩
  · rcases List.cons_eq_append_iff.mp hy with ⟨rfl, rfl⟩ | ⟨rest, rfl, rfl⟩
    · exact Or.inr ⟨[], by simpa using hx.symm, rfl⟩
    · exact Or.inl ⟨rest, hx, rfl⟩

/-- A part of a part of a list is a part of the list. -/
theorem split_split {α : Type} {xs past before mid after : List α} {x : α}
    (h : xs = past ++ after) (hp : past = before ++ x :: mid) :
    xs = before ++ x :: (mid ++ after) := by
  rw [h, hp, List.append_assoc, List.cons_append]

theorem subset_of_split {α : Type} {xs past after : List α} (h : xs = past ++ after) :
    past ⊆ xs := by
  rw [h]
  exact List.subset_append_left _ _

namespace Group
open History

variable {g g' g₀ : Group} {p q d : Proc} {c : Option CausalCall} {l : CausalLayer}
  {i j : MessageId} {r s : CausalRequest} {e : CausalEvent} {es : List CausalEvent}
  {before after past past' after' : History} {flying : List Flight} {ok : Group → Action → Prop}

/-- An event in the history after some events of `p` is an old one, or one of them. -/
theorem split_log (h : (g.absorb p es l).log = before ++ (q, e) :: after) :
    (∃ rest, g.log = before ++ (q, e) :: rest ∧ after = rest ++ es.map (p, ·)) ∨
      (q = p ∧ ∃ es₁ es₂, es = es₁ ++ e :: es₂ ∧ before = g.log ++ es₁.map (p, ·) ∧
        after = es₂.map (p, ·)) := by
  rcases split_append h with hold | ⟨mid, hb, hes⟩
  · exact Or.inl hold
  · right
    obtain ⟨es₁, es', rfl, rfl, hes'⟩ := List.map_eq_append_iff.mp hes
    obtain ⟨e', es₂, rfl, he, rfl⟩ := List.map_eq_cons_iff.mp hes'
    cases he
    exact ⟨rfl, es₁, es₂, rfl, hb, rfl⟩

theorem log_subset_absorb : g.log ⊆ (g.absorb p es l).log := List.subset_append_left _ _

theorem delivered_absorb : HasDelivered (g.absorb p es l).log q i ↔
    HasDelivered g.log q i ∨ (q = p ∧ ∃ e ∈ es, e.Delivers i) := by
  simp only [HasDelivered, mem_absorb_log, or_and_right, exists_or, and_assoc,
    exists_and_left]

structure Sound (g : Group) : Prop where
  here : ∀ p, (g.layers p).here = p
  started : ∀ p i r, (p, .started i r) ∈ g.log →
    i.sender = p ∧ i.sequence < (g.layers p).nextSequence
  unique : ∀ i r s, Started g.log i r → Started g.log i s → r = s
  once : ∀ past after p i r s, g.log = past ++ (p, .started i r) :: after →
    ¬ Started past i s
  sent : ∀ f ∈ g.flying, ∀ i destinations payload, f.packet = .send i destinations payload →
    f.source = i.sender ∧ f.target ∈ destinations ∧
      Started g.log i ⟨payload, destinations⟩
  acked : ∀ f ∈ g.flying, ∀ i, f.packet = .ack i → HasDelivered g.log f.source i
  early : ∀ p i q, (g.layers p).Acked i q → HasDelivered g.log q i
  /-- A message is delivered to a destination after it is started. -/
  origin : ∀ before after p e i, g.log = before ++ (p, e) :: after → e.Delivers i →
    ∃ r, Started before i r ∧ p ∈ r.destinations

theorem sound_blank (h : g.Blank) : g.Sound where
  here p := by
    obtain ⟨w, k, b, ms, hl⟩ := h.layers p
    rw [hl]
    rfl
  started := by simp [h.log]
  unique := by simp [h.log, Started]
  once := by simp [h.log]
  sent := by simp [h.flying]
  acked := by simp [h.flying]
  early p i q ha := by
    obtain ⟨w, k, b, ms, hl⟩ := h.layers p
    rw [hl] at ha
    obtain ⟨e, he, -⟩ := ha
    cases he
  origin := by simp [h.log]

/-- A message is known only after its start. -/
theorem started_of_known (hg : g.Sound) (hp : past <+: g.log)
    (hk : Known past p i) : ∃ r, Started past i r := by
  obtain ⟨e, he, ht | ht⟩ := hk
  · obtain ⟨r, rfl⟩ := CausalEvent.starts_iff.mp ht
    obtain ⟨hi, -⟩ := hg.started _ _ _ (hp.subset he)
    exact ⟨r, by rwa [Started, hi]⟩
  · obtain ⟨before, mid, rfl⟩ := List.append_of_mem he
    obtain ⟨rest, hlog⟩ := hp
    obtain ⟨r, hr, -⟩ := hg.origin before _ p e i (split_split hlog.symm rfl) ht
    exact ⟨r, hr.mono (subset_of_split rfl)⟩

/-- Destinations alone deliver a message. -/
theorem destination_of_delivered (hg : g.Sound) (hd : HasDelivered g.log p i)
    (hr : Started g.log i r) : p ∈ r.destinations := by
  obtain ⟨e, he, hde⟩ := hd
  obtain ⟨before, after, hsplit⟩ := List.append_of_mem he
  obtain ⟨s, hs, hp⟩ := hg.origin before after p e i hsplit hde
  have hrs := hg.unique i r s hr (hs.mono (subset_of_split hsplit))
  rwa [hrs]

/-! ### Order in the history -/

/-- A message has one start. -/
theorem start_unique (hg : g.Sound)
    (h : g.log = past ++ (p, .started i r) :: after)
    (h' : g.log = past' ++ (q, .started i s) :: after') : past = past' ∧ p = q := by
  have hp := (hg.started p i r (by simp [h])).1
  have hq := (hg.started q i s (by simp [h'])).1
  rw [h] at h'
  rcases split_append h' with ⟨rest, hpast, -⟩ | ⟨mid, hpast, hmid⟩
  · exact (hg.once past after p i r s h (by simp [Started, hpast, hq])).elim
  · cases mid with
    | nil => exact ⟨by simpa using hpast.symm, hp.symm.trans hq⟩
    | cons x mid =>
      rw [List.cons_append, List.cons.injEq] at hmid
      refine (hg.once past' after' q i s r (by rw [h, h']) ?_).elim
      simp [Started, hpast, ← hmid.1, hp]

theorem deliversBefore_of_start (hg : g.Sound)
    (hsplit : g.log = past ++ (p, .started j s) :: after) (hd : HasDelivered past d i) :
    DeliversBefore g.log d i j := by
  intro past' after' e hsplit' he
  obtain ⟨t, ht, -⟩ := hg.origin past' after' d e j hsplit' he
  obtain ⟨before, mid, hpast⟩ := List.append_of_mem ht
  obtain ⟨rfl, -⟩ := start_unique hg hsplit (split_split hsplit' hpast)
  exact hd.mono (subset_of_split hpast)

/-! ### Preservation -/

/-- A start is the first event of its step. -/
theorem start_first (hs : (g.layers p).Step c es l) {es₁ es₂ : List CausalEvent}
    (hes : es = es₁ ++ .started i s :: es₂) : es₁ = [] := by
  obtain ⟨-, -, hst, -⟩ := CausalLayer.step_started hs (by simp [hes] : .started i s ∈ es)
  cases es₁ with
  | nil => rfl
  | cons e es₁ =>
    rw [hst, CausalLayer.startEvents, List.cons_append, List.cons.injEq] at hes
    have hmem : .started i s ∈ es₁ ++ .started i s :: es₂ := by simp
    rw [← hes.2] at hmem
    split at hmem <;> split at hmem <;> simp at hmem

section act
variable (hg : g.Sound) (hs : (g.layers p).Step c es l) (hc : Cause ok g p c flying)
include hg hs

theorem here_act : ((g.absorb p es l).layers q).here = q := by
  by_cases hq : q = p
  · subst hq
    rw [absorb_layers_self, CausalLayer.step_here hs]
    exact hg.here q
  · rw [absorb_layers_of_ne hq]
    exact hg.here q

theorem started_act (h : (q, .started i r) ∈ (g.absorb p es l).log) :
    i.sender = q ∧ i.sequence < ((g.absorb p es l).layers q).nextSequence := by
  rcases mem_absorb_log.mp h with h | ⟨rfl, hnew⟩
  · obtain ⟨hq, hi⟩ := hg.started q i r h
    refine ⟨hq, ?_⟩
    by_cases he : q = p
    · subst he
      rw [absorb_layers_self]
      exact Nat.lt_of_lt_of_le hi (CausalLayer.step_nextSequence hs)
    · rwa [absorb_layers_of_ne he]
  · obtain ⟨-, hi, -, hn, -⟩ := CausalLayer.step_started hs hnew
    rw [absorb_layers_self, hn, hi]
    exact ⟨hg.here q, Nat.lt_succ_self _⟩

/-- A number that is given to a message has not been given before. -/
theorem not_started_before (h : .started i r ∈ es) : ¬ Started g.log i s := by
  intro hold
  obtain ⟨-, rfl, -⟩ := CausalLayer.step_started hs h
  obtain ⟨-, hlt⟩ := hg.started _ _ _ hold
  simp [CausalLayer.nextId, hg.here] at hlt

theorem unique_act (hr : Started (g.absorb p es l).log i r)
    (hs' : Started (g.absorb p es l).log i s) : r = s := by
  rcases mem_absorb_log.mp hr with hr | ⟨-, hr⟩ <;> rcases mem_absorb_log.mp hs' with hs' | ⟨-, hs'⟩
  · exact hg.unique i r s hr hs'
  · exact (not_started_before hg hs hs' hr).elim
  · exact (not_started_before hg hs hr hs').elim
  · obtain ⟨-, -, he, -⟩ := CausalLayer.step_started hs hr
    simp only [he, CausalLayer.mem_startEvents, CausalEvent.started.injEq, reduceCtorEq, and_false,
      or_false] at hs'
    exact hs'.2.symm

theorem once_act
    (h : (g.absorb p es l).log = before ++ (q, .started i r) :: after) :
    ¬ Started before i s := by
  rcases split_log h with ⟨rest, hold, -⟩ | ⟨rfl, es₁, es₂, hes, rfl, -⟩
  · exact hg.once before rest q i r s hold
  · have hfirst := start_first hs hes
    subst hfirst
    rw [List.map_nil, List.append_nil]
    exact not_started_before hg hs (by simp [hes] : .started i r ∈ es)

include hc

omit hs in
/-- A message that a layer hears was started by the process that passes it on. -/
theorem started_of_heard {source : Proc} {destinations : List Proc} {payload : Bytes}
    (h : c = some (.deliver source (.send i destinations payload))) :
    source = i.sender ∧ p ∈ destinations ∧ Started g.log i ⟨payload, destinations⟩ := by
  subst h
  exact hg.sent _ hc.flying_of_deliver _ _ _ rfl

omit hs in
theorem delivered_of_heard (h : c = some (.deliver q (.ack i))) : HasDelivered g.log q i := by
  subst h
  exact hg.acked _ hc.flying_of_deliver _ rfl

theorem sent_act {f : Flight} (hf : f ∈ ({ g with flying }.absorb p es l).flying)
    {destinations : List Proc} {payload : Bytes} (hp : f.packet = .send i destinations payload) :
    f.source = i.sender ∧ f.target ∈ destinations ∧
      Started (g.absorb p es l).log i ⟨payload, destinations⟩ := by
  rcases mem_absorb_flying.mp hf with hf | ⟨hsource, e, he, hsend⟩
  · obtain ⟨hsource, htarget, hi⟩ := hg.sent f (hc.flying_subset hf) _ _ _ hp
    exact ⟨hsource, htarget, hi.mono log_subset_absorb⟩
  · rw [hp] at hsend
    obtain ⟨rfl, htarget, -⟩ := send_posted hsend
    obtain ⟨-, hi, -⟩ := CausalLayer.step_started hs he
    have hp : i.sender = p := by rw [hi, CausalLayer.nextId, hg.here]
    exact ⟨hsource.trans hp.symm, htarget, mem_absorb_log.mpr (Or.inr ⟨hp, he⟩)⟩

omit hs in
theorem acked_act {f : Flight} (hf : f ∈ ({ g with flying }.absorb p es l).flying)
    (hp : f.packet = .ack i) : HasDelivered (g.absorb p es l).log f.source i := by
  rcases mem_absorb_flying.mp hf with hf | ⟨hsource, e, he, hsend⟩
  · exact (hg.acked f (hc.flying_subset hf) i hp).mono log_subset_absorb
  · rw [hp] at hsend
    obtain ⟨payload, informed, members, rfl, -⟩ := ack_posted.mp hsend
    exact delivered_absorb.mpr (Or.inr ⟨hsource, _, he, rfl⟩)

theorem early_act {p' : Proc} (ha : ((g.absorb p es l).layers p').Acked i q) :
    HasDelivered (g.absorb p es l).log q i := by
  refine HasDelivered.mono ?_ log_subset_absorb
  by_cases hp : p' = p
  · subst hp
    rw [absorb_layers_self] at ha
    rcases CausalLayer.step_acked hs ha with ha | ha
    · exact hg.early _ _ _ ha
    · exact delivered_of_heard hg hc ha
  · rw [absorb_layers_of_ne hp] at ha
    exact hg.early _ _ _ ha

theorem origin_act (h : (g.absorb p es l).log = before ++ (q, e) :: after) (he : e.Delivers i) :
    ∃ r, Started before i r ∧ q ∈ r.destinations := by
  rcases split_log h with ⟨rest, hold, -⟩ | ⟨rfl, es₁, es₂, hes, rfl, -⟩
  · exact hg.origin before rest q e i hold he
  · obtain ⟨payload, informed, members, rfl⟩ := CausalEvent.delivers_iff.mp he
    have hmem : .delivered i payload informed members ∈ es := by simp [hes]
    obtain ⟨-, ⟨r, hst, rfl, hh, -⟩ | ⟨source, destinations, d, hd, -⟩⟩ :=
      CausalLayer.step_delivered hs hmem
    · -- A start comes before the delivery to the process itself.
      have hfirst : .started (g.layers q).nextId r ∈ es₁ := by
        rw [hst, CausalLayer.startEvents] at hes
        cases es₁ with
        | nil => simp at hes
        | cons e₁ es₁ => simp_all
      have hq : (g.layers q).nextId.sender = q := hg.here q
      exact ⟨r, List.mem_append_right _ (List.mem_map.mpr ⟨_, hfirst, by rw [hq]⟩), hg.here q ▸ hh⟩
    · obtain ⟨-, hq, hi⟩ := started_of_heard hg hc hd
      exact ⟨_, hi.mono (subset_of_split rfl), hq⟩

theorem sound_act : ({ g with flying }.absorb p es l).Sound where
  here _ := here_act (g := g) hg hs
  started _ _ _ := started_act (g := g) hg hs
  unique _ _ _ := unique_act (g := g) hg hs
  once _ _ _ _ _ _ := once_act (g := g) hg hs
  sent _ hf _ _ _ := sent_act hg hs hc hf
  acked _ hf _ := acked_act hg hc hf
  early _ _ _ := early_act (g := g) hg hs hc
  origin _ _ _ _ _ := origin_act (g := g) hg hs hc

end act

theorem sound_without {f : Flight} (hg : g.Sound) : (g.without f).Sound :=
  { hg with
    sent := fun f' hf => hg.sent f' (List.mem_of_mem_erase hf)
    acked := fun f' hf => hg.acked f' (List.mem_of_mem_erase hf) }

theorem sound_micro (h : Micro ok g g') (hg : g.Sound) : g'.Sound := by
  cases h with
  | act cause step => exact sound_act hg step cause
  | refuse | lose => exact sound_without hg

theorem sound_reach (h : Reach ok g₀ g) (hg : g₀.Sound) : g.Sound := by
  induction h with
  | refl => exact hg
  | step _ micro ih => exact sound_micro micro ih

end Group

end Multicast
