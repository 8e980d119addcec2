import Multicast.Proofs.Causal.History

/-! A process that has taken up a message waits for each destination until that destination has
delivered the message, and starts no message in the meantime. -/
namespace Multicast

/-- Some event of `p` shows a member list without `d`. -/
def History.Omitted (h : History) (p d : Proc) : Prop := ∃ e, (p, e) ∈ h ∧ e.Omits d

theorem History.Omitted.mono {h k : History} {p d : Proc} (ho : Omitted h p d) (hk : h ⊆ k) :
    Omitted k p d := by
  obtain ⟨e, he, ho⟩ := ho
  exact ⟨e, hk he, ho⟩

namespace Group
open History

variable {g g' g₀ : Group} {p q d : Proc} {c : Option CausalCall} {l : CausalLayer}
  {i j : MessageId} {r s : CausalRequest} {e : CausalEvent} {es : List CausalEvent}
  {flying : List Flight} {ok : Group → Action → Prop} {ds ms informed : List Proc}
  {payload : Bytes} {source : Proc}

/-- Whoever has taken up a message has heard of each destination, or waits for it, or has been
shown a list without it since. -/
def Gated (g : Group) : Prop :=
  ∀ before after p e i r d, g.log = before ++ (p, e) :: after → e.TakesUp i →
    Started g.log i r → d ∈ r.destinations →
      HasDelivered g.log d i ∨ (g.layers p).Awaits i d ∨ Omitted ((p, e) :: after) p d

/-- At the start of a message, each destination of a message taken up by then has delivered that
one, unless a list without it has been shown in between. -/
def Ordered (h : History) : Prop :=
  ∀ past after p j s, h = past ++ (p, .started j s) :: after →
    ∀ before mid e i r d, past = before ++ (p, e) :: mid → e.TakesUp i →
      Started past i r → d ∈ r.destinations → HasDelivered past d i ∨ Omitted ((p, e) :: mid) p d

theorem mem_of_split {before after : History} (h : g.log = before ++ (p, e) :: after) :
    (p, e) ∈ g.log := by
  simp [h]

section act
variable (hg : g.Sound) (hs : (g.layers p).Step c es l) (hc : Cause ok g p c flying)
include hg hs

theorem gate_of_start (he : .started i r ∈ es) (hd : d ∈ r.destinations) :
    HasDelivered (g.absorb p es l).log d i ∨ l.Awaits i d := by
  obtain ⟨-, rfl, hes, -, ha, -⟩ := CausalLayer.step_started hs he
  by_cases hh : d = p
  · subst hh
    left
    have he := CausalLayer.mem_startEvents.mpr (Or.inr (Or.inl ⟨by rwa [hg.here], rfl⟩))
    rw [← hes] at he
    exact delivered_absorb.mpr (Or.inr ⟨rfl, _, he, rfl⟩)
  · right
    exact (ha _ _).mpr ⟨rfl, CausalLayer.mem_audience.mpr ⟨hd, by rwa [hg.here]⟩⟩

theorem gate_of_arrival (hcall : c = some (.deliver source (.send i ds payload)))
    (he : .delivered i payload informed ms ∈ es) (hd : d ∈ ds) :
    HasDelivered (g.absorb p es l).log d i ∨ l.Awaits i d ∨ d ∉ ms := by
  subst hcall
  obtain ⟨rfl, -⟩ := CausalLayer.step_delivered hs he
  by_cases hr : d ∈ (g.layers p).residual i ds
  · exact Or.inr (Or.inl (CausalLayer.step_awaits_residual hs he hr))
  · rw [CausalLayer.mem_residual] at hr
    by_cases hh : d = p
    · subst hh
      exact Or.inl (delivered_absorb.mpr (Or.inr ⟨rfl, _, he, rfl⟩))
    · by_cases hm : d ∈ (g.layers p).members
      · have ha : (g.layers p).Acked i d := by
          by_contra hna
          exact hr ⟨hd, by rwa [hg.here], hm, hna⟩
        exact Or.inl ((hg.early _ _ _ ha).mono log_subset_absorb)
      · exact Or.inr (Or.inr hm)

include hc

/-- A message is gated from the moment it is taken up. -/
theorem gate_of_takesUp (he : e ∈ es) (ht : e.TakesUp i)
    (hr : Started (g.absorb p es l).log i r) (hd : d ∈ r.destinations) :
    HasDelivered (g.absorb p es l).log d i ∨ l.Awaits i d ∨ e.Omits d := by
  have hstart : ∀ s, .started i s ∈ es →
      HasDelivered (g.absorb p es l).log d i ∨ l.Awaits i d ∨ e.Omits d := by
    intro s hsi
    have hi : i.sender = p := by
      obtain ⟨-, rfl, -⟩ := CausalLayer.step_started hs hsi
      exact hg.here p
    have hrs := unique_act hg hs hr (mem_absorb_log.mpr (Or.inr ⟨hi, hsi⟩))
    subst hrs
    rcases gate_of_start hg hs hsi hd with h | h
    · exact Or.inl h
    · exact Or.inr (Or.inl h)
  rcases ht with ht | ht
  · obtain ⟨s, rfl⟩ := CausalEvent.starts_iff.mp ht
    exact hstart s he
  · obtain ⟨payload, informed, ms, rfl⟩ := CausalEvent.delivers_iff.mp ht
    obtain ⟨-, ⟨s, hes, rfl, -⟩ | ⟨source, ds, _, hcall, -⟩⟩ := CausalLayer.step_delivered hs he
    · exact hstart s (hes ▸ CausalLayer.mem_startEvents.mpr (Or.inl rfl))
    · obtain ⟨-, -, hi⟩ := started_of_heard hg hc hcall
      have hrs := unique_act hg hs hr (hi.mono log_subset_absorb)
      subst hrs
      exact gate_of_arrival hg hs hcall he hd

/-- A process is no longer awaited once it has delivered the message or a list omits it. -/
theorem gate_of_awaits (ha : (g.layers p).Awaits i d) (hr : Started g.log i r)
    (hd : d ∈ r.destinations) :
    HasDelivered (g.absorb p es l).log d i ∨ l.Awaits i d ∨ ∃ e ∈ es, e.Omits d := by
  rcases CausalLayer.step_awaits_lost hs ha with h | hack | ⟨ms, hm, hd⟩ | ⟨_, _, _, _, _, he, _⟩
  · exact Or.inr (Or.inl h)
  · exact Or.inl ((delivered_of_heard hg hc hack).mono log_subset_absorb)
  · exact Or.inr (Or.inr ⟨_, hm, hd⟩)
  · rcases gate_of_takesUp hg hs hc he (Or.inr rfl) (hr.mono log_subset_absorb) hd with h | h | h
    · exact Or.inl h
    · exact Or.inr (Or.inl h)
    · exact Or.inr (Or.inr ⟨_, he, h⟩)

theorem gated_act (hgate : g.Gated) : ({ g with flying }.absorb p es l).Gated := by
  intro before after q e i r d hsplit ht hr hd
  rcases split_log (g := { g with flying }) hsplit with
    ⟨rest, hold, rfl⟩ | ⟨rfl, es₁, es₂, hes, rfl, rfl⟩
  · obtain ⟨s, hi⟩ := started_of_known hg (List.prefix_refl _) ⟨e, mem_of_split hold, ht⟩
    have hrs := unique_act hg hs hr (hi.mono log_subset_absorb)
    subst hrs
    rcases hgate before rest q e i r d hold ht hi hd with h | h | h
    · exact Or.inl (h.mono (log_subset_absorb (l := l)))
    · by_cases hq : q = p
      · subst hq
        rcases gate_of_awaits hg hs hc h hi hd with h | h | ⟨e', he', ho⟩
        · exact Or.inl h
        · exact Or.inr (Or.inl (by rwa [absorb_layers_self]))
        · exact Or.inr (Or.inr ⟨e', by simp [he'], ho⟩)
      · exact Or.inr (Or.inl (by rwa [absorb_layers_of_ne hq]))
    · exact Or.inr (Or.inr (h.mono (List.cons_subset_cons _ (List.subset_append_left _ _))))
  · rcases gate_of_takesUp hg hs hc (by simp [hes] : e ∈ es) ht hr hd with h | h | h
    · exact Or.inl h
    · exact Or.inr (Or.inl (by rwa [absorb_layers_self]))
    · exact Or.inr (Or.inr ⟨e, List.mem_cons_self, h⟩)

end act

theorem ordered_act (hs : (g.layers p).Step c es l) (hgate : g.Gated) (ho : Ordered g.log) :
    Ordered (g.absorb p es l).log := by
  intro past after q j s hsplit
  rcases split_log hsplit with ⟨rest, hold, -⟩ | ⟨rfl, es₁, es₂, hes, rfl, -⟩
  · exact ho past rest q j s hold
  · have hfirst := start_first hs hes
    subst hfirst
    obtain ⟨hidle, -⟩ := CausalLayer.step_started hs (by simp [hes] : .started j s ∈ es)
    intro before mid e i r d hpast ht hr hd
    rw [List.map_nil, List.append_nil] at hpast hr ⊢
    rcases hgate before mid q e i r d hpast ht hr hd with h | h | h
    · exact Or.inl h
    · exact (CausalLayer.not_awaits_of_idle hidle h).elim
    · exact Or.inr h

theorem gated_reach (h : Reach ok g₀ g) (hb : g₀.Blank) : g.Gated ∧ Ordered g.log := by
  induction h with
  | refl => exact ⟨by simp [Gated, hb.log], by simp [Ordered, hb.log]⟩
  | step reach micro ih =>
    have hg := sound_reach reach (sound_blank hb)
    cases micro with
    | act cause step => exact ⟨gated_act hg step cause ih.1, ordered_act step ih.1 ih.2⟩
    | refuse | lose => exact ih

theorem delivered_or_omitted {past before mid after : History} (hg : g.Sound)
    (ho : Ordered g.log) (hsplit : g.log = past ++ (p, .started j s) :: after)
    (hpast : past = before ++ (p, e) :: mid) (ht : e.TakesUp i) (hr : Started g.log i r)
    (hd : d ∈ r.destinations) : HasDelivered past d i ∨ Omitted ((p, e) :: mid) p d := by
  have hknown : Known past p i := ⟨e, by simp [hpast], ht⟩
  obtain ⟨r', hr'⟩ := started_of_known hg ⟨_, hsplit.symm⟩ hknown
  have hrr := hg.unique i r r' hr (hr'.mono (subset_of_split hsplit))
  subst hrr
  exact ho past after p j s hsplit before mid e i r d hpast ht hr' hd

/-! ### Who is awaited -/

/-- What makes `p` wait for `d`: another destination of a message that it started, or delivered
under a list with `d`. -/
structure Founded (h : History) (p : Proc) (i : MessageId) (d : Proc) : Prop where
  other : d ≠ p
  addressed : ∃ r, Started h i r ∧ d ∈ r.destinations
  taken : (∃ r, (p, .started i r) ∈ h) ∨ Listed h p i d

theorem Founded.mono {h k : History} (hf : Founded h p i d) (hk : h ⊆ k) : Founded k p i d where
  other := hf.other
  addressed := by
    obtain ⟨r, hr, hd⟩ := hf.addressed
    exact ⟨r, hr.mono hk, hd⟩
  taken := by
    rcases hf.taken with ⟨r, hr⟩ | hl
    · exact Or.inl ⟨r, hk hr⟩
    · exact Or.inr (hl.mono hk)

theorem founded_act (hg : g.Sound) (hs : (g.layers p).Step c es l) (hc : Cause ok g p c flying)
    (hf : ∀ q i d, (g.layers q).Awaits i d → Founded g.log q i d)
    (ha : ((g.absorb p es l).layers q).Awaits i d) : Founded (g.absorb p es l).log q i d := by
  by_cases hq : q = p
  · subst hq
    rw [absorb_layers_self] at ha
    rcases CausalLayer.step_awaits hs ha with h | ⟨r, he, hd⟩ | ⟨_, ds, payload, _, hcall, he, hd⟩
    · exact (hf q i d h).mono log_subset_absorb
    · obtain ⟨hd, hne⟩ := CausalLayer.mem_audience.mp hd
      obtain ⟨-, hi, -⟩ := CausalLayer.step_started hs he
      have hmem : (q, .started i r) ∈ (g.absorb q es l).log := mem_absorb_log.mpr (Or.inr ⟨rfl, he⟩)
      have hsender : i.sender = q := by
        rw [hi]
        exact hg.here q
      refine ⟨by rwa [hg.here] at hne, ⟨r, ?_, hd⟩, Or.inl ⟨r, hmem⟩⟩
      rwa [Started, hsender]
    · obtain ⟨hd, hne, hm, -⟩ := CausalLayer.mem_residual.mp hd
      obtain ⟨-, -, hi⟩ := started_of_heard hg hc hcall
      refine ⟨by rwa [hg.here] at hne, ⟨_, hi.mono log_subset_absorb, hd⟩, Or.inr ?_⟩
      exact ⟨payload, _, _, mem_absorb_log.mpr (Or.inr ⟨rfl, he⟩), hm⟩
  · rw [absorb_layers_of_ne hq] at ha
    exact (hf q i d ha).mono log_subset_absorb

theorem founded_reach (h : Reach ok g₀ g) (hb : g₀.Blank) (ha : (g.layers p).Awaits i d) :
    Founded g.log p i d := by
  induction h generalizing p i d with
  | refl =>
    obtain ⟨w, k, b, ms, hl⟩ := hb.layers p
    rw [hl] at ha
    exact (CausalLayer.not_awaits_of_idle rfl ha).elim
  | @step g g' reach micro ih =>
    cases micro with
    | act cause step =>
      have hg := sound_reach reach (sound_blank hb)
      exact founded_act (g := g) hg step cause (fun _ _ _ => ih) ha
    | refuse | lose => exact ih ha

end Group

end Multicast
