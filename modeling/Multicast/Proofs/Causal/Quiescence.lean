import Multicast.Proofs.Causal.Lossless

/-! A group with a fixed member list that loses no packet comes to rest: once nothing is on its way,
nobody waits for anybody, and every message has been delivered and completed once. -/
namespace Multicast.Group
open History

variable {g g₀ : Group} {p q d : Proc} {c : Option CausalCall} {l : CausalLayer}
  {i : MessageId} {r : CausalRequest} {es : List CausalEvent} {flying : List Flight}
  {ok : Group → Action → Prop} {members : List Proc} {window capacity : Proc → Nat}

/-! ### Acknowledgements -/

/-- Each acknowledgement is accounted for by those who take part in the message. -/
def Audited (g : Group) : Prop :=
  ∀ i r p d, Started g.log i r → (p ∈ r.destinations ∨ p = i.sender) → p ≠ d →
    HasDelivered g.log d i → g.Accounted p i d

/-- A process does not wait anew for a message of its own. -/
theorem accounted_own (hg : g.Sound) (ha : g.Abroad) (hs : (g.layers p).Step c es l)
    (hc : Cause ok g p c flying) (hi : i.sender = q) (hr : Started g.log i r)
    (hacc : g.Accounted q i d) : ({ g with flying }.absorb p es l).Accounted q i d := by
  have hsub : g.log ⊆ ({ g with flying }.absorb p es l).log := log_subset_absorb (g := g) (l := l)
  have hknown : Known ({ g with flying }.absorb p es l).log q i := by
    refine ⟨.started i r, hsub ?_, Or.inl rfl⟩
    rw [← hi]
    exact hr
  cases hacc with
  | flying h =>
    rcases hc.mem_flying h with h | ⟨hq, hcall⟩
    · exact .flying (mem_absorb_flying.mpr (Or.inl h))
    · dsimp only at hq hcall
      subst hq hcall
      obtain ⟨hn, -⟩ := CausalLayer.step_ack hs
      exact .counted (by rwa [absorb_layers_self]) (Or.inl hknown)
  | evicted h => exact .evicted (h.mono hsub)
  | counted h =>
    refine .counted ?_ (Or.inl hknown)
    by_cases hq : q = p
    · subst hq
      rw [absorb_layers_self]
      intro hawaits
      rcases CausalLayer.step_awaits hs hawaits with hold | ⟨s, he, -⟩ | ⟨_, _, _, _, hcall, -⟩
      · exact h hold
      · exact not_started_before hg hs he hr
      · exact not_heard_own ha hc hi hcall
    · rwa [absorb_layers_of_ne hq]

theorem audited_act (hg : g.Steady members)
    (hf : ∀ q i d, (g.layers q).Awaits i d → Founded g.log q i d) (ha : g.Audited)
    (hs : (g.layers p).Step c es l) (hc : Cause ok g p c flying) :
    ({ g with flying }.absorb p es l).Audited := by
  intro i r q d hr hq hne hdel
  rcases delivered_absorb.mp hdel with hold | ⟨rfl, e, he, hd⟩
  · obtain ⟨s, hstarted⟩ := started_of_known hg.sound (List.prefix_refl _) hold.known
    have hrs := unique_act hg.sound hs hr (hstarted.mono log_subset_absorb)
    subst hrs
    have hacc := ha i r q d hstarted hq hne hold
    by_cases hi : i.sender = q
    · exact accounted_own hg.sound hg.abroad hs hc hi hstarted hacc
    · exact accounted_act hg.sound hg.recalls hf hs hc hi hacc
  · exact accounted_of_delivery hg.sound hs hc he hd hr hq hne

section reach
variable (hok : ∀ g a, ok g a → Lossless members a) (hnodup : members.Nodup)
  (h : Reach ok (formed members window capacity) g)
include hok hnodup h

theorem audited_reach : g.Audited := by
  induction h with
  | refl => simp [Audited, Started, formed]
  | @step g g' reach micro ih =>
    have hg := steady_lossless hok hnodup reach
    cases micro with
    | act cause step =>
      exact audited_act hg (fun _ _ _ => founded_reach reach (blank_formed hnodup)) ih step cause
    | refuse _ flying deaf => exact (deaf (hg.hears flying)).elim
    | lose allowed => exact (hok _ _ allowed).elim

theorem unrepeated_reach : g.Unrepeated := by
  induction h with
  | refl => exact fun _ _ => Or.inl rfl
  | @step g g' reach micro ih =>
    have hg := steady_lossless hok hnodup reach
    cases micro with
    | act cause step =>
      exact unrepeated_act hg.sound (hg.recalls _) (fun _ _ => hg.sender_listed) ih step cause
    | refuse | lose => exact ih

end reach

/-! ### Rest -/

/-- Once nothing is on its way, every destination has delivered. -/
theorem Flowing.delivered (hf : g.Flowing) (hquiet : g.flying = []) (hr : Started g.log i r)
    (hd : d ∈ r.destinations) : HasDelivered g.log d i := by
  rcases hf.carried i r d hr hd with h | h
  · exact h
  · rw [hquiet] at h
    cases h

theorem not_awaits_of_quiet (hg : g.Steady members) (hf : g.Flowing) (he : g.Roomy capacity)
    (ha : g.Audited) (hquiet : g.flying = []) (hfounded : Founded g.log p i d) :
    ¬ (g.layers p).Awaits i d := by
  obtain ⟨r, hr, hd⟩ := hfounded.addressed
  have hpart : p ∈ r.destinations ∨ p = i.sender := by
    rcases hfounded.taken with ⟨s, hs⟩ | ⟨payload, informed, ms, hdel, -⟩
    · exact Or.inr (hg.sound.started p i s hs).1.symm
    · exact Or.inl (destination_of_delivered hg.sound ⟨_, hdel, rfl⟩ hr)
  have hdel := hf.delivered hquiet hr hd
  cases ha i r p d hr hpart hfounded.other.symm hdel with
  | flying h =>
    rw [hquiet] at h
    cases h
  | evicted h =>
    obtain ⟨e, hmem, -⟩ := h
    exact (he.kept p e hmem).elim
  | counted h => exact h

theorem pending_eq_nil (hr : Recalls g.log p (g.layers p))
    (h : ∀ i d, ¬ (g.layers p).Awaits i d) : (g.layers p).pending = [] := by
  refine List.eq_nil_iff_forall_not_mem.mpr fun e he => ?_
  obtain ⟨d, hd⟩ := List.exists_mem_of_ne_nil e.2 (hr.filled e he)
  exact h e.1 d ⟨e.2, he, hd⟩

theorem early_eq_nil (hf : g.Flowing) (he : g.Roomy capacity) (hquiet : g.flying = []) :
    (g.layers p).early = [] := by
  refine List.eq_nil_iff_forall_not_mem.mpr fun e hmem => ?_
  obtain ⟨-, ⟨r, hr, hp⟩, hn⟩ := he.premature p e hmem
  exact hn (hf.delivered hquiet hr hp)

/-- Its destinations alone deliver a message, and each of them once. -/
theorem deliveries_of_quiet (hg : g.Sound) (hf : g.Flowing) (hu : g.Unrepeated)
    (hquiet : g.flying = []) (hr : Started g.log i r) :
    deliveries g.log d i = if d ∈ r.destinations then [r.payload] else [] := by
  by_cases hd : d ∈ r.destinations
  · rw [if_pos hd]
    rcases hu d i with h | ⟨s, hs, h⟩
    · exact (deliveries_eq_nil.mp h (hf.delivered hquiet hr hd)).elim
    · rw [h, hg.unique i s r hs hr]
  · rw [if_neg hd, deliveries_eq_nil]
    intro hdel
    exact hd (destination_of_delivered hg hdel hr)

theorem Counted.completed_of_quiet (hn : g.Counted p) (hidle : (g.layers p).pending = [])
    {k : Nat} (hk : (CausalEvent.requests (part g.log p))[k]? = some r) :
    (g.output p).completed.count ⟨p, k⟩ = 1 := by
  obtain ⟨hlt, -⟩ := List.getElem?_eq_some_iff.mp hk
  rw [hn.length] at hlt
  have hissued : (g.layers p).issued ⟨p, k⟩ = 1 := if_pos hlt
  have hsum := hn.completed k
  rw [CausalLayer.holds_of_idle hidle, hissued] at hsum
  rw [output, CausalEvent.count_outputs_completed]
  omega

/-- In a group that loses no packet, whenever nothing is on its way the layers are at rest. Then
each accepted message has been delivered by its destinations, once by each, and completed once. The
log tells what the layers put out. -/
theorem quiescence (members : List Proc) (window capacity : Proc → Nat) (actions : List Action)
    (hnodup : members.Nodup) (hroom : ∀ p ∈ members, members.length ≤ capacity p)
    (hlossless : ∀ a ∈ actions, Lossless members a) :
    let g₀ := formed members window capacity
    let g := g₀.run actions
    (∀ p, g.output p = (g₀.layers p).output (g₀.calls p actions)) ∧
    (g.flying = [] → ∀ p,
      (g.layers p).pending = [] ∧ (g.layers p).queue = [] ∧ (g.layers p).early = [] ∧
      ∀ k r, (g₀.accepted p actions)[k]? = some r →
        (∀ d, deliveries g.log d ⟨p, k⟩ = if d ∈ r.destinations then [r.payload] else []) ∧
          (g.output p).completed.count ⟨p, k⟩ = 1) := by
  intro g₀ g
  have hb : g₀.Blank := blank_formed hnodup
  refine ⟨fun _ => output_run hb, fun hquiet p => ?_⟩
  have hreach : Reach (fun _ a => Lossless members a) g₀ g :=
    reach_run fun _ a ha => hlossless a (ha.subset (by simp))
  have hg := steady_lossless (fun _ _ h => h) hnodup hreach
  have hf := flowing_reach (fun _ _ h => h) hnodup hreach
  have he := roomy_reach (fun _ _ h => h) hnodup hroom hreach
  have ha := audited_reach (fun _ _ h => h) hnodup hreach
  have hu := unrepeated_reach (fun _ _ h => h) hnodup hreach
  have hn : g.Counted p := counted_reach hreach hb
  have hidle : (g.layers p).pending = [] := by
    refine pending_eq_nil (hg.recalls p) fun i d hawaits => ?_
    exact not_awaits_of_quiet hg hf he ha hquiet (founded_reach hreach hb hawaits) hawaits
  have hfresh : ∀ q, (g₀.layers q).queue = [] := by
    intro q
    rw [layers_formed hnodup]
    rfl
  have ⟨htaken, hprompt⟩ : g.taken p = g₀.taken p ++ g₀.accepted p actions ∧
      ∀ q, (g.layers q).Prompt := taken_run fun q _ => hfresh q
  have hqueue : (g.layers p).queue = [] := hprompt p hidle
  have haccepted : CausalEvent.requests (part g.log p) = g₀.accepted p actions := by
    have hbefore : g₀.taken p = [] := by
      rw [taken, hfresh]
      rfl
    change CausalEvent.requests (part g.log p) ++ (g.layers p).queue = _ at htaken
    rwa [hqueue, hbefore, List.append_nil, List.nil_append] at htaken
  refine ⟨hidle, hqueue, early_eq_nil hf he hquiet, ?_⟩
  intro k r hk
  rw [← haccepted] at hk
  have hr := hn.numbered k r hk
  exact ⟨fun d => deliveries_of_quiet hg.sound hf hu hquiet hr, hn.completed_of_quiet hidle hk⟩

/-- The relay, and then all acknowledgements that are on their way, one of them twice. -/
def wholeRelay (a b c : Proc) : List Action :=
  relay a b c ++ [.copy ⟨b, a, .ack ⟨a, 0⟩⟩, .deliver ⟨b, a, .ack ⟨a, 0⟩⟩,
    .deliver ⟨b, c, .ack ⟨a, 0⟩⟩, .deliver ⟨c, a, .ack ⟨a, 0⟩⟩, .deliver ⟨c, b, .ack ⟨b, 0⟩⟩]

theorem wholeRelay_quiescent : let a : Proc := ⟨"a", 1, 0⟩
    let b : Proc := ⟨"b", 1, 0⟩
    let c : Proc := ⟨"c", 1, 0⟩
    let g := (formed [a, b, c] (fun _ => 4) (fun _ => 4)).run (wholeRelay a b c)
    (g.layers b).pending = [] ∧ deliveries g.log c ⟨b, 0⟩ = [[]] ∧
      (g.output b).completed.count ⟨b, 0⟩ = 1 := by
  intro a b c
  obtain ⟨-, hrest⟩ := quiescence [a, b, c] (fun _ => 4) (fun _ => 4)
    (wholeRelay a b c) (by decide) (by decide) (by decide)
  obtain ⟨hidle, -, -, haccepted⟩ := hrest (by decide) b
  obtain ⟨hdelivered, hcompleted⟩ := haccepted 0 ⟨[], [c]⟩ (by decide)
  have hc := (hdelivered c).trans (if_pos (by decide))
  exact ⟨hidle, hc, hcompleted⟩

end Multicast.Group
