import Multicast.Proofs.Causal.Gate

/-! The member lists that the processes of a group are shown. -/
namespace Multicast.Group

variable {g g' g₀ : Group} {p d : Proc} {c : Option CausalCall} {l : CausalLayer}
  {es : List CausalEvent} {flying : List Flight} {ok : Group → Action → Prop}
  {everyone : List Proc}

/-- No process is ever shown a list without `d`. -/
structure Keeps (d : Proc) (g : Group) : Prop where
  listed : ∀ p, d ∈ (g.layers p).members
  shown : ∀ p e, (p, e) ∈ g.log → ¬ e.Omits d

/-- Members and destinations come from a given list. -/
structure Within (everyone : List Proc) (g : Group) : Prop where
  members : ∀ p, ∀ d ∈ (g.layers p).members, d ∈ everyone
  queued : ∀ p, ∀ r ∈ (g.layers p).queue, ∀ d ∈ r.destinations, d ∈ everyone
  started : ∀ p i r, (p, .started i r) ∈ g.log → ∀ d ∈ r.destinations, d ∈ everyone

theorem keeps_act (hk : g.Keeps d) (hs : (g.layers p).Step c es l)
    (hlist : ∀ ms, c = some (.init ms) ∨ c = some (.view ms) → d ∈ ms) :
    ({ g with flying }.absorb p es l).Keeps d where
  listed q := by
    by_cases hq : q = p
    · subst hq
      rw [absorb_layers_self]
      exact (CausalLayer.step_keeps hs (hk.listed q) hlist).1
    · rw [absorb_layers_of_ne hq]
      exact hk.listed q
  shown q e he := by
    rcases mem_absorb_log.mp he with hold | ⟨rfl, hnew⟩
    · exact hk.shown q e hold
    · exact (CausalLayer.step_keeps hs (hk.listed q) hlist).2 e hnew

theorem within_act (hw : g.Within everyone) (hs : (g.layers p).Step c es l)
    (hlist : ∀ ms, c = some (.init ms) ∨ c = some (.view ms) → ∀ d ∈ ms, d ∈ everyone) :
    ({ g with flying }.absorb p es l).Within everyone where
  members q d hd := by
    by_cases hq : q = p
    · subst hq
      rw [absorb_layers_self] at hd
      rcases CausalLayer.step_list hs with he | hc
      · exact hw.members q d (he ▸ hd)
      · exact hlist _ hc d hd
    · rw [absorb_layers_of_ne hq] at hd
      exact hw.members q d hd
  queued q r hr d hd := by
    by_cases hq : q = p
    · subst hq
      rw [absorb_layers_self] at hr
      rcases CausalLayer.step_queue hs hr with hr | hm
      · exact hw.queued q r hr d hd
      · exact hw.members q d (hm d hd)
    · rw [absorb_layers_of_ne hq] at hr
      exact hw.queued q r hr d hd
  started q i r hr d hd := by
    rcases mem_absorb_log.mp hr with hold | ⟨rfl, hnew⟩
    · exact hw.started q i r hold d hd
    · obtain ⟨-, -, -, -, -, hr | hm⟩ := CausalLayer.step_started hs hnew
      · exact hw.queued q r hr d hd
      · exact hw.members q d (hm d hd)

theorem keeps_reach (h : Reach ok g₀ g) (hk : g₀.Keeps d)
    (hlist : ∀ g p ms, ok g (.init p ms) ∨ ok g (.view p ms) → d ∈ ms) : g.Keeps d := by
  induction h with
  | refl => exact hk
  | step _ micro ih =>
    cases micro with
    | act cause step =>
      exact keeps_act ih step fun ms hc => hlist _ _ ms (cause.allowed_of_list hc)
    | refuse | lose => exact ⟨ih.listed, ih.shown⟩

theorem within_reach (h : Reach ok g₀ g) (hw : g₀.Within everyone)
    (hlist : ∀ g p ms, ok g (.init p ms) ∨ ok g (.view p ms) → ∀ d ∈ ms, d ∈ everyone) :
    g.Within everyone := by
  induction h with
  | refl => exact hw
  | step _ micro ih =>
    cases micro with
    | act cause step =>
      exact within_act ih step fun ms hc => hlist _ _ ms (cause.allowed_of_list hc)
    | refuse | lose => exact ⟨ih.members, ih.queued, ih.started⟩

theorem keeps_formed {members : List Proc} {window capacity : Proc → Nat} (h : members.Nodup)
    (hd : d ∈ members) : (formed members window capacity).Keeps d where
  listed p := by
    rw [layers_formed h]
    exact hd
  shown _ _ he := by simp [formed] at he

theorem within_formed {members : List Proc} {window capacity : Proc → Nat} (h : members.Nodup) :
    (formed members window capacity).Within members where
  members p d hd := by rwa [layers_formed h] at hd
  queued p r hr := by
    rw [layers_formed h] at hr
    cases hr
  started _ _ _ he := by simp [formed] at he

end Multicast.Group
