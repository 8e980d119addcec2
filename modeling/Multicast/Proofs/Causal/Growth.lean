import Multicast.Proofs.Causal.Calls
import Multicast.Proofs.Causal.Lists

/-! In a group whose member lists only grow, messages keep their order for those whom the list
had when the earlier message was delivered. -/
namespace Multicast.Group
open History

variable {g g' g₀ : Group} {p d : Proc} {c : Option CausalCall} {l : CausalLayer}
  {i j : MessageId} {r s : CausalRequest} {es : List CausalEvent} {flying : List Flight}
  {a : Action} {actions cs : List Action} {lists : List (List Proc)} {ms : List Proc}
  {window capacity : Proc → Nat} {past after : History}

/-- The list that an action gives to `p`. -/
def Action.list? (p : Proc) : Action → Option (List Proc)
  | init q ms | view q ms => if q = p then some ms else none
  | _ => none

/-- The process to which an action gives a list. -/
def Action.mover? : Action → Option Proc
  | init q _ | view q _ => some q
  | _ => none

/-- Every process takes up the lists one after another, from the first list that has it. -/
def Paced (lists : List (List Proc)) (actions : List Action) : Prop :=
  ∀ p, actions.filterMap (Action.list? p) <+: lists.dropWhile (p ∉ ·)

theorem paced_iff : Paced lists actions ↔ ∀ p ∈ actions.filterMap Action.mover?,
    actions.filterMap (Action.list? p) <+: lists.dropWhile (p ∉ ·) := by
  constructor
  · exact fun h p _ => h p
  · intro h p
    by_cases hp : p ∈ actions.filterMap Action.mover?
    · exact h p hp
    · have hnone : actions.filterMap (Action.list? p) = [] := by
        rw [List.filterMap_eq_nil_iff]
        intro a ha
        cases a with
        | init q ms | view q ms =>
          refine if_neg fun hq => hp ?_
          exact List.mem_filterMap.mpr ⟨_, ha, by rw [Action.mover?, hq]⟩
        | send | deliver | copy | lose => rfl
      rw [hnone]
      exact List.nil_prefix

instance : Decidable (Paced lists actions) := decidable_of_iff _ paced_iff.symm

/-- The action takes nobody off a list. -/
def Grows (g : Group) (a : Action) : Prop :=
  ∀ p ms, a.list? p = some ms → (g.layers p).members ⊆ ms

/-- Those whom a list had at a delivery are on every list after it. -/
def Growing (g : Group) : Prop :=
  ∀ before after p e i d, g.log = before ++ (p, e) :: after → Listed [(p, e)] p i d →
    d ∈ (g.layers p).members ∧ ¬ Omitted ((p, e) :: after) p d

/-! ### Lists along a run -/

theorem after_members {l : CausalLayer} {c : CausalCall} : (l.after c).members = l.members ∨
    c = .init (l.after c).members ∨ c = .view (l.after c).members := by
  cases h : l.call c with
  | error e => exact Or.inl (by rw [(CausalLayer.unchanged_of_error h).1])
  | ok result =>
    obtain ⟨es, m, fs, hs, hd, -, -⟩ := CausalLayer.call_ok h
    rw [CausalLayer.after_of_ok h, CausalLayer.drains_members hd]
    simpa using CausalLayer.step_list hs

theorem call_members (g : Group) (q p : Proc) (c : CausalCall) :
    ((g.call q c).layers p).members = (g.layers p).members ∨
      (q = p ∧ (c = .init ((g.call q c).layers p).members ∨
        c = .view ((g.call q c).layers p).members)) := by
  rw [follows_call.layer]
  split
  · rename_i hq
    exact after_members.imp id fun h => ⟨hq, h⟩
  · exact Or.inl rfl

theorem handOver_members {f : Flight} :
    ((g.handOver f).layers p).members = (g.layers p).members := by
  rcases call_members g f.target p (.deliver f.source f.packet) with h | ⟨-, h⟩
  · exact h
  · simp at h

theorem step_members : ((g.step a).layers p).members = (g.layers p).members ∨
    a.list? p = some ((g.step a).layers p).members := by
  cases a with
  | init q ms =>
    refine (call_members g q p (.init ms)).imp id ?_
    rintro ⟨hq, h⟩
    simpa [Action.list?, hq, step] using h
  | view q ms =>
    refine (call_members g q p (.view ms)).imp id ?_
    rintro ⟨hq, h⟩
    simpa [Action.list?, hq, step] using h
  | send q payload ds =>
    refine (call_members g q p (.send payload ds)).imp id ?_
    rintro ⟨-, h⟩
    simp at h
  | deliver f =>
    left
    rw [step]
    split
    · exact handOver_members
    · rfl
  | copy f =>
    left
    rw [step]
    split
    · exact handOver_members
    · rfl
  | lose f => exact Or.inl rfl

/-- The list of a process is one that it took up. -/
theorem run_members (window capacity : Proc → Nat) (cs : List Action) (p : Proc) :
    (((scattered window capacity).run cs).layers p).members = [] ∨
    (((scattered window capacity).run cs).layers p).members ∈ cs.filterMap (Action.list? p) := by
  induction cs using List.reverseRecOn with
  | nil => exact Or.inl rfl
  | append_singleton cs a ih =>
    rw [run_append_singleton, List.filterMap_append, List.mem_append]
    rcases step_members (g := (scattered window capacity).run cs) (a := a) (p := p) with h | h
    · rw [h]
      exact ih.imp id Or.inl
    · exact Or.inr (Or.inr (by simp [h]))

theorem grows_of_paced (hlists : lists.Pairwise (· ⊆ ·)) (hpaced : Paced lists actions)
    (ha : cs ++ [a] <+: actions) : Grows ((scattered window capacity).run cs) a := by
  intro p ms hms
  have htaken : cs.filterMap (Action.list? p) ++ [ms] <+: lists.dropWhile (p ∉ ·) := by
    refine List.IsPrefix.trans ?_ (hpaced p)
    have := ha.filterMap (Action.list? p)
    simpa [hms] using this
  have hpairs : (cs.filterMap (Action.list? p) ++ [ms]).Pairwise (· ⊆ ·) :=
    (hlists.sublist (List.dropWhile_sublist _)).sublist htaken.sublist
  rcases run_members window capacity cs p with h | h
  · rw [h]
    exact List.nil_subset _
  · exact (List.pairwise_append.mp hpairs).2.2 _ h ms (List.mem_singleton.mpr rfl)

/-! ### Order -/

theorem growing_act (hg : g.Growing) (hs : (g.layers p).Step c es l)
    (hgrow : ∀ ms, c = some (.init ms) ∨ c = some (.view ms) → (g.layers p).members ⊆ ms) :
    ({ g with flying }.absorb p es l).Growing := by
  intro before after q e i d hsplit hlisted
  have hkeeps : d ∈ (g.layers p).members → d ∈ l.members ∧ ∀ e ∈ es, ¬ e.Omits d := fun hd =>
    CausalLayer.step_keeps hs hd fun ms hc => hgrow ms hc hd
  rcases split_log (g := { g with flying }) hsplit with
    ⟨rest, hold, rfl⟩ | ⟨rfl, es₁, es₂, hes, rfl, rfl⟩
  · obtain ⟨hm, ho⟩ := hg before rest q e i d hold hlisted
    by_cases hq : q = p
    · subst hq
      obtain ⟨hm, hn⟩ := hkeeps hm
      refine ⟨by rwa [absorb_layers_self], ?_⟩
      rintro ⟨e', he', hd⟩
      rw [← List.cons_append, List.mem_append] at he'
      rcases he' with he' | he'
      · exact ho ⟨e', he', hd⟩
      · exact hn e' (by simpa using he') hd
    · refine ⟨by rwa [absorb_layers_of_ne hq], ?_⟩
      rintro ⟨e', he', hd⟩
      rw [← List.cons_append, List.mem_append] at he'
      rcases he' with he' | he'
      · exact ho ⟨e', he', hd⟩
      · simp [Ne.symm hq] at he'
  · obtain ⟨payload, informed, ms, he, hd⟩ := hlisted
    simp only [List.mem_singleton, Prod.mk.injEq, true_and] at he
    subst he
    have hmem : .delivered i payload informed ms ∈ es := by simp [hes]
    obtain ⟨rfl, -⟩ := CausalLayer.step_delivered hs hmem
    obtain ⟨hm, hn⟩ := hkeeps hd
    refine ⟨by rwa [absorb_layers_self], ?_⟩
    rintro ⟨e', he', hd⟩
    refine hn e' ?_ hd
    rw [hes]
    exact List.mem_append_right _ (by simpa using he')

theorem growing_reach (h : Reach Grows g₀ g) (hb : g₀.Blank) : g.Growing := by
  induction h with
  | refl => simp [Growing, hb.log]
  | @step g g' _ micro ih =>
    cases micro with
    | act cause step =>
      refine growing_act ih step fun ms hc => ?_
      rcases cause.allowed_of_list hc with h | h
      · exact h _ ms (by simp [Action.list?])
      · exact h _ ms (by simp [Action.list?])
    | refuse | lose => exact ih

/-- Whoever was listed at the delivery of a message has it when a later message is started. -/
theorem delivered_of_listed (hg : g.Sound) (ho : Ordered g.log) (hgrow : g.Growing)
    (hsplit : g.log = past ++ (p, .started j s) :: after) (hl : Listed past p i d)
    (hr : Started g.log i r) (hd : d ∈ r.destinations) : HasDelivered past d i := by
  obtain ⟨payload, informed, ms, he, hm⟩ := hl
  obtain ⟨before, mid, hpast⟩ := List.append_of_mem he
  rcases delivered_or_omitted hg ho hsplit hpast (Or.inr rfl) hr hd with h | h
  · exact h
  · have hnone := (hgrow before _ p _ i d (split_split hsplit hpast)
      ⟨payload, informed, ms, by simp, hm⟩).2
    exact (hnone (h.mono (subset_of_split (List.cons_append).symm))).elim

/-- A message keeps its order for a destination that the list of `p` had when `p` delivered the
message. For others `p` never waits. The log tells what the layers put out. -/
theorem growing_causal_order (lists : List (List Proc)) (window capacity : Proc → Nat)
    (actions : List Action) (hlists : lists.Pairwise (· ⊆ ·)) (hpaced : Paced lists actions) :
    let g₀ := scattered window capacity
    let g := g₀.run actions
    (∀ past after p j s, g.log = past ++ (p, .started j s) :: after →
      ∀ i r d, Listed past p i d → Started g.log i r → d ∈ r.destinations →
        HasDelivered past d i ∧ DeliversBefore g.log d i j) ∧
    (∀ p i d, i.sender ≠ p → ¬ Listed g.log p i d → ¬ (g.layers p).Awaits i d) ∧
    ∀ p, g.output p = (g₀.layers p).output (g₀.calls p actions) := by
  intro g₀ g
  have hb : (scattered window capacity).Blank := blank_scattered
  have hreach : Reach Grows (scattered window capacity) g :=
    reach_run fun cs a ha => grows_of_paced hlists hpaced ha
  have hg := sound_reach hreach (sound_blank hb)
  refine ⟨?_, ?_, fun _ => output_run hb⟩
  · intro past after p j s hsplit i r d hl hr hd
    have hdelivered := delivered_of_listed hg (gated_reach hreach hb).2 (growing_reach hreach hb)
      hsplit hl hr hd
    exact ⟨hdelivered, deliversBefore_of_start hg hsplit hdelivered⟩
  · intro p i d hp hl ha
    rcases (founded_reach hreach hb ha).taken with ⟨r, hr⟩ | h
    · exact hp (hg.started p i r hr).1
    · exact hl h

theorem relay_ordered_growing : let a : Proc := ⟨"a", 1, 0⟩
    let b : Proc := ⟨"b", 1, 0⟩
    let c : Proc := ⟨"c", 1, 0⟩
    let g := (scattered (fun _ => 4) (fun _ => 4)).run ([.init a [a, b], .init b [a, b],
      .view a [a, b, c], .init c [a, b, c], .view b [a, b, c]] ++ relay a b c)
    ∃ past after, g.log = past ++ (b, .started ⟨b, 0⟩ ⟨[], [c]⟩) :: after ∧
      Listed past b ⟨a, 0⟩ c ∧ DeliversBefore g.log c ⟨a, 0⟩ ⟨b, 0⟩ := by
  intro a b c g
  have hsplit : g.log = g.log.take 8 ++ (b, .started ⟨b, 0⟩ ⟨[], [c]⟩) :: g.log.drop 9 := by decide
  have hlisted : Listed (g.log.take 8) b ⟨a, 0⟩ c :=
    ⟨[], [c, a], [a, b, c], by decide, by decide⟩
  have ho := (growing_causal_order [[a, b], [a, b, c]] (fun _ => 4) (fun _ => 4) _ (by decide)
    (by decide)).1 _ _ b ⟨b, 0⟩ ⟨[], [c]⟩ hsplit ⟨a, 0⟩ ⟨[], [b, c]⟩ c hlisted
    (by decide) (by decide)
  exact ⟨_, _, hsplit, hlisted, ho.2⟩

/-- A process that a list adds after the delivery of a message can miss its turn. -/
theorem growing_order_lost : ¬ ∀ (lists : List (List Proc)) (window capacity : Proc → Nat)
    (actions : List Action), lists.Pairwise (· ⊆ ·) → Paced lists actions →
    let h := ((scattered window capacity).run actions).log
    ∀ past after p j s, h = past ++ (p, .started j s) :: after →
      ∀ i r d, HasDelivered past p i → Started h i r → d ∈ r.destinations → d ∈ s.destinations →
        DeliversBefore h d i j := by
  intro h
  let a : Proc := ⟨"a", 1, 0⟩
  let b : Proc := ⟨"b", 1, 0⟩
  let c : Proc := ⟨"c", 1, 0⟩
  let actions : List Action := [.init a [a, b], .init b [a, b], .view a [a, b, c],
    .init c [a, b, c], .send a [] [b, c], .deliver ⟨a, b, .send ⟨a, 0⟩ [b, c] []⟩,
    .view b [a, b, c], .send b [] [c], .deliver ⟨b, c, .send ⟨b, 0⟩ [c] []⟩]
  let log := ((scattered (fun _ => 4) (fun _ => 4)).run actions).log
  have hstart : log = log.take 7 ++ (b, .started ⟨b, 0⟩ ⟨[], [c]⟩) :: log.drop 8 := by decide
  have hlast : log = log.take 8 ++ [(c, .delivered ⟨b, 0⟩ [] [b] [a, b, c])] := by decide
  have ho := h [[a, b], [a, b, c]] (fun _ => 4) (fun _ => 4) actions (by decide) (by decide)
    _ _ b ⟨b, 0⟩ ⟨[], [c]⟩ hstart ⟨a, 0⟩ ⟨[], [b, c]⟩ c (by decide) (by decide) (by decide)
    (by decide) _ _ _ hlast rfl
  exact absurd ho (by decide)

end Multicast.Group
