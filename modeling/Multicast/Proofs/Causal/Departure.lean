import Multicast.Proofs.Causal.Calls
import Multicast.Proofs.Causal.Recall

/-! In a group that a member leaves, a message of that member stays pending for want of a survivor
that never got it. -/
namespace Multicast.Group
open History

variable {g g' g₀ : Group} {p q a d s : Proc} {c : Option CausalCall} {l : CausalLayer}
  {i : MessageId} {r : CausalRequest} {f : Flight} {ms members : List Proc}
  {window capacity : Proc → Nat}

def survivors (members : List Proc) (s : Proc) : List Proc := members.filter (· ≠ s)

theorem mem_survivors : p ∈ survivors members s ↔ p ∈ members ∧ p ≠ s := by
  simp [survivors]

theorem sender_ne (hp : p ∈ survivors members s) (hi : i.sender = s) : i.sender ≠ p := by
  rw [hi]
  exact (mem_survivors.mp hp).2.symm

/-- The packet is on its way from one survivor to another. -/
def Between (members : List Proc) (s : Proc) (f : Flight) : Prop :=
  f.source ∈ survivors members s ∧ f.target ∈ survivors members s

instance : Decidable (Between members s f) := inferInstanceAs (Decidable (_ ∧ _))

/-- Survivors move to the list without `s`. Packets between them are not lost. -/
def Departs (members : List Proc) (s : Proc) : Action → Prop
  | .init _ _ => False
  | .view p ms => p ∈ survivors members s ∧ ms = survivors members s
  | .lose f => ¬ Between members s f
  | .send .. | .deliver _ | .copy _ => True

instance : DecidablePred (Departs members s) := fun a =>
  match a with
  | .init _ _ => isFalse id
  | .view p ms => inferInstanceAs (Decidable (p ∈ survivors members s ∧ ms = survivors members s))
  | .lose f => inferInstanceAs (Decidable (¬ Between members s f))
  | .send .. | .deliver _ | .copy _ => isTrue trivial

/-- What holds while `s` departs. -/
structure Departing (members : List Proc) (s : Proc) (g : Group) : Prop where
  recalls : ∀ p, Recalls g.log p (g.layers p)
  keeps : ∀ d ∈ survivors members s, g.Keeps d
  accounted : ∀ i r p d, i.sender = s → p ∈ survivors members s → d ∈ survivors members s →
    p ≠ d → Started g.log i r → p ∈ r.destinations → HasDelivered g.log d i → g.Accounted p i d

theorem list_of_departs {g : Group} {ok : Group → Action → Prop}
    (hok : ∀ g a, ok g a → Departs members s a) {flying : List Flight}
    (hc : Cause ok g p c flying) (hl : c = some (.init ms) ∨ c = some (.view ms)) :
    ms = survivors members s := by
  rcases hc.allowed_of_list hl with h | h
  · exact (hok _ _ h).elim
  · exact (hok _ _ h).2

theorem departing_formed (h : members.Nodup) :
    Departing members s (formed members window capacity) where
  recalls _ := recalls_formed h
  keeps d hd := keeps_formed h (mem_survivors.mp hd).1
  accounted _ _ _ _ _ _ _ _ hr := by simp [Started, formed] at hr

theorem departing_act (hd : Departing members s g) (hg : g.Sound)
    (hf : ∀ q i d, (g.layers q).Awaits i d → Founded g.log q i d) {es : List CausalEvent}
    (hs : (g.layers p).Step c es l) {ok : Group → Action → Prop} {flying : List Flight}
    (hc : Cause ok g p c flying) (hok : ∀ g a, ok g a → Departs members s a) :
    Departing members s ({ g with flying }.absorb p es l) where
  recalls q := by
    by_cases hq : q = p
    · subst hq
      rw [absorb_layers_self]
      refine recalls_act (g := g) hg (hd.recalls q) hs fun ms hl => ?_
      rw [list_of_departs hok hc hl]
      exact fun d hmem => (hd.keeps d hmem).listed q
    · rw [absorb_layers_of_ne hq]
      refine (hd.recalls q).mono (log_subset_absorb (g := g) (l := l)) fun i hi => ?_
      exact (delivered_absorb.mp hi).resolve_right fun h => hq h.1
  keeps d hmem := by
    refine keeps_act (hd.keeps d hmem) hs fun ms hl => ?_
    rwa [list_of_departs hok hc hl]
  accounted i r q d hi hq hd' hne hr hdest hdel := by
    rcases delivered_absorb.mp hdel with hold | ⟨rfl, e, he, hdel⟩
    · obtain ⟨r', hr'⟩ := started_of_known hg (List.prefix_refl _) hold.known
      have hrr := unique_act hg hs hr (hr'.mono log_subset_absorb)
      subst hrr
      exact accounted_act hg hd.recalls hf hs hc (sender_ne hq hi)
        (hd.accounted i r q d hi hq hd' hne hr' hdest hold)
    · exact accounted_of_delivery hg hs hc he hdel hr (Or.inl hdest) hne

/-- A packet that is gone was not on its way between survivors. -/
theorem departing_without (hd : Departing members s g) (hf : ¬ Between members s f) :
    Departing members s (g.without f) where
  recalls := hd.recalls
  keeps d hmem := ⟨(hd.keeps d hmem).listed, (hd.keeps d hmem).shown⟩
  accounted i r p d hi hp hmem hne hr hdest hdel := by
    cases hd.accounted i r p d hi hp hmem hne hr hdest hdel with
    | flying h =>
      refine .flying ((List.mem_erase_of_ne ?_).mpr h)
      rintro rfl
      exact hf ⟨hmem, hp⟩
    | evicted h => exact .evicted h
    | counted h known => exact .counted h known

theorem departing_reach {ok : Group → Action → Prop} (hok : ∀ g a, ok g a → Departs members s a)
    (h : Reach ok g₀ g) (hb : g₀.Blank) (hd : Departing members s g₀) :
    Departing members s g := by
  induction h with
  | refl => exact hd
  | step reach micro ih =>
    cases micro with
    | act cause step =>
      exact departing_act ih (sound_reach reach (sound_blank hb))
        (fun _ _ _ => founded_reach reach hb) step cause hok
    | @refuse f allowed flying deaf =>
      refine departing_without ih fun hbetween => deaf ?_
      exact ⟨(ih.recalls _).ready, (ih.keeps _ hbetween.1).listed _⟩
    | lose allowed => exact departing_without ih (hok _ _ allowed)

/-- Somebody awaited for a message of `s` never got it, or acknowledged it too early. -/
theorem missing_of_awaits (hd : Departing members s g) (hg : g.Sound)
    (hmoved : (g.layers p).members = survivors members s)
    (hquiet : ∀ f ∈ g.flying, ¬ Between members s f) (hp : p ∈ survivors members s)
    (hi : i.sender = s) (hf : Founded g.log p i d) (ha : (g.layers p).Awaits i d) :
    HasDelivered g.log p i ∧ ∃ r, Started g.log i r ∧ d ∈ r.destinations ∧ d ≠ p ∧
      d ∈ survivors members s ∧ (¬ HasDelivered g.log d i ∨ Evicted g.log p i d) := by
  have hdelivered : HasDelivered g.log p i := by
    rcases hf.taken with ⟨r, hr⟩ | ⟨payload, informed, ms, he, -⟩
    · exact (sender_ne hp hi (hg.started _ _ _ hr).1).elim
    · exact ⟨_, he, rfl⟩
  obtain ⟨r, hr, hdest⟩ := hf.addressed
  have hmem : d ∈ survivors members s := by
    rw [← hmoved]
    exact ((hd.recalls p).present i d (sender_ne hp hi) ha).1
  refine ⟨hdelivered, r, hr, hdest, hf.other, hmem, ?_⟩
  by_cases hdel : HasDelivered g.log d i
  · have hown := destination_of_delivered hg hdelivered hr
    cases hd.accounted i r p d hi hp hmem hf.other.symm hr hown hdel with
    | flying h => exact (hquiet _ h ⟨hmem, hp⟩).elim
    | evicted h => exact Or.inr h
    | counted h => exact (h ha).elim
  · exact Or.inl hdel

theorem awaits_of_missing (hd : Departing members s g) (hgate : g.Gated)
    (hdel : HasDelivered g.log p i) (hr : Started g.log i r) (hdest : d ∈ r.destinations)
    (hmem : d ∈ survivors members s) (hn : ¬ HasDelivered g.log d i) :
    (g.layers p).Awaits i d := by
  obtain ⟨e, he, hde⟩ := hdel
  obtain ⟨before, after, hsplit⟩ := List.append_of_mem he
  rcases hgate before after p e i r d hsplit (Or.inr hde) hr hdest with h | h | ⟨e', he', ho⟩
  · exact (hn h).elim
  · exact h
  · refine ((hd.keeps d hmem).shown p e' ?_ ho).elim
    rw [hsplit]
    exact List.mem_append_right _ he'

/-- Once the survivors have moved to the list without `s`, and nothing is on its way between them,
a message of `s` is pending with a survivor only for want of another surviving destination that
never got it, or whose acknowledgement was evicted; and it is pending as long as a surviving
destination is without it. The log tells what the layers put out. -/
theorem departed_sender_pending (members : List Proc) (s : Proc) (window capacity : Proc → Nat)
    (actions : List Action) (hnodup : members.Nodup)
    (hdeparts : ∀ a ∈ actions, Departs members s a) :
    let g₀ := formed members window capacity
    let g := g₀.run actions
    (∀ p, g.output p = (g₀.layers p).output (g₀.calls p actions)) ∧
    ((∀ p ∈ survivors members s, (g.layers p).members = survivors members s) →
      (∀ f ∈ g.flying, ¬ Between members s f) →
      ∀ p ∈ survivors members s, ∀ i, i.sender = s →
        ((g.layers p).pending.has i = true →
          HasDelivered g.log p i ∧ ∃ d r, Started g.log i r ∧ d ∈ r.destinations ∧ d ≠ p ∧
            d ∈ survivors members s ∧ (¬ HasDelivered g.log d i ∨ Evicted g.log p i d)) ∧
        ∀ d r, HasDelivered g.log p i → Started g.log i r → d ∈ r.destinations →
          d ∈ survivors members s → ¬ HasDelivered g.log d i →
          (g.layers p).pending.has i = true) := by
  intro g₀ g
  have hb : g₀.Blank := blank_formed hnodup
  refine ⟨fun _ => output_run hb, fun hmoved hquiet p hp i hi => ?_⟩
  have hreach : Reach (fun _ a => Departs members s a) (formed members window capacity) g :=
    reach_run fun _ a ha => hdeparts a (ha.subset (by simp))
  have hg := sound_reach hreach (sound_blank hb)
  have hd := departing_reach (fun _ _ h => h) hreach hb (departing_formed hnodup)
  constructor
  · intro hpending
    obtain ⟨d, ha⟩ := awaits_of_has (hd.recalls p).filled hpending
    obtain ⟨hdelivered, hmissing⟩ := missing_of_awaits hd hg (hmoved p hp) hquiet hp hi
      (founded_reach hreach hb ha) ha
    exact ⟨hdelivered, d, hmissing⟩
  · intro d r hdel hr hdest hmem hn
    exact CausalLayer.awaits_has
      (awaits_of_missing hd (gated_reach hreach hb).1 hdel hr hdest hmem hn)

/-- The message of `s` reaches `a` and not `b`. -/
def partialSend (s a b : Proc) : List Action :=
  [.send s [] [a, b], .deliver ⟨s, a, .send ⟨s, 0⟩ [a, b] []⟩, .lose ⟨s, b, .send ⟨s, 0⟩ [a, b] []⟩,
    .view a [a, b], .deliver ⟨a, b, .ack ⟨s, 0⟩⟩, .view b [a, b]]

theorem partialSend_pending : let s : Proc := ⟨"s", 1, 0⟩
    let a : Proc := ⟨"a", 1, 0⟩
    let b : Proc := ⟨"b", 1, 0⟩
    (((formed [s, a, b] (fun _ => 4) (fun _ => 4)).run (partialSend s a b)).layers a).pending.has
      ⟨s, 0⟩ = true := by
  intro s a b
  exact (departed_sender_pending [s, a, b] s (fun _ => 4) (fun _ => 4) (partialSend s a b)
    (by decide) (by decide)).2 (by decide) (by decide) a (by decide) ⟨s, 0⟩ rfl |>.2 b ⟨[], [a, b]⟩
    (by decide) (by decide) (by decide) (by decide) (by decide)

/-- A survivor can be left with a message of the departed member. -/
theorem departed_sender_left : ¬ ∀ (members : List Proc) (s : Proc) (window capacity : Proc → Nat)
    (actions : List Action), members.Nodup → (∀ a ∈ actions, Departs members s a) →
    let g := (formed members window capacity).run actions
    (∀ p ∈ survivors members s, (g.layers p).members = survivors members s) →
    (∀ f ∈ g.flying, ¬ Between members s f) →
    ∀ p ∈ survivors members s, ∀ i, i.sender = s → (g.layers p).pending.has i = false := by
  intro h
  let s : Proc := ⟨"s", 1, 0⟩
  let a : Proc := ⟨"a", 1, 0⟩
  let b : Proc := ⟨"b", 1, 0⟩
  have hnone := h [s, a, b] s (fun _ => 4) (fun _ => 4) (partialSend s a b) (by decide) (by decide)
    (by decide) (by decide) a (by decide) ⟨s, 0⟩ rfl
  exact absurd hnone (by decide)

end Multicast.Group
