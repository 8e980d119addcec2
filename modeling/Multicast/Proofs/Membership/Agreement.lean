import Mathlib.Logic.Function.Basic
import Multicast.Proofs.Membership.Agreed

/-! Processes that apply the same agreed operations, each at its own pace, install the same views;
those that join catch up by a state transfer. -/
namespace Multicast

/-- A group of membership layers, one of each process. -/
structure MembershipGroup where
  layers : Proc → MembershipLayer
  /-- How many of the agreed operations each process has behind it. -/
  position : Proc → Nat
  /-- The transfers that were put out, with their destinations. -/
  sent : List (Proc × StateTransfer)
  /-- The views that were installed, oldest first. -/
  installed : List (Proc × View)

namespace MembershipGroup
open View (agreed)

inductive Action where
  /-- A process is fed the next agreed operation. -/
  | feed (p : Proc)
  | transfer (p : Proc) (t : StateTransfer)
  deriving DecidableEq, Repr

variable {g g' : MembershipGroup} {initial : List Proc} {ops past ys zs : List MembershipOp}
  {start : Proc → Nat} {p q : Proc} {k : Nat} {a : Action} {actions : List Action}
  {r : MembershipOutput × MembershipLayer} {t : StateTransfer}

/-- An initial member starts with the list of the initial members, any other process with an empty
one. -/
def opening (initial : List Proc) (p : Proc) : MembershipOutput × MembershipLayer :=
  match ({ here := p } : MembershipLayer).init (if p ∈ initial then initial else []) with
  | .ok r => r
  | .error _ => ({}, { here := p })

/-- All have started. Those that are no initial members are fed the operations from `start` on. -/
def opened (initial : List Proc) (start : Proc → Nat) : MembershipGroup where
  layers p := (opening initial p).2
  position p := if p ∈ initial then 0 else start p
  sent := []
  installed := initial.flatMap fun p => (opening initial p).1.newViews.map (p, ·)

/-- The layer of `p` goes on with an output, and has `position` operations behind it. -/
def absorb (g : MembershipGroup) (p : Proc) (position : Nat)
    (r : MembershipOutput × MembershipLayer) : MembershipGroup where
  layers := Function.update g.layers p r.2
  position := Function.update g.position p position
  sent := g.sent ++ r.1.transfers
  installed := g.installed ++ r.1.newViews.map (p, ·)

def step (ops : List MembershipOp) (g : MembershipGroup) : Action → MembershipGroup
  | .feed p =>
    match ops[g.position p]? with
    | some op => g.absorb p (g.position p + 1) ((g.layers p).adeliver op)
    | none => g
  | .transfer p t =>
    match (g.layers p).deliverState t with
    | .ok r => g.absorb p (g.position p) r
    | .error _ => g

def run (ops : List MembershipOp) (g : MembershipGroup) (actions : List Action) :
    MembershipGroup := actions.foldl (step ops) g

/-- A transfer comes to the process that it was sent to; a process that joins has been fed the
operation that adds it. -/
def Permitted (initial : List Proc) (ops : List MembershipOp) (g : MembershipGroup) :
    Action → Prop
  | .feed _ => True
  | .transfer p t => (p, t) ∈ g.sent ∧ (p ∈ initial ∨ .add p ∈ ops.take (g.position p))

def Proper (initial : List Proc) (ops : List MembershipOp) (g : MembershipGroup) :
    List Action → Prop
  | [] => True
  | a :: actions => Permitted initial ops g a ∧ Proper initial ops (g.step ops a) actions

instance : Decidable (Permitted initial ops g a) :=
  match a with
  | .feed _ => isTrue trivial
  | .transfer p t =>
    inferInstanceAs (Decidable ((p, t) ∈ g.sent ∧ (p ∈ initial ∨ .add p ∈ ops.take (g.position p))))

instance decidableProper : (g : MembershipGroup) → (actions : List Action) →
    Decidable (Proper initial ops g actions)
  | _, [] => isTrue trivial
  | g, a :: actions =>
    have := decidableProper (g.step ops a) actions
    inferInstanceAs (Decidable (Permitted initial ops g a ∧
      Proper initial ops (g.step ops a) actions))

/-- The views that `p` has installed, oldest first. -/
def views (g : MembershipGroup) (p : Proc) : List View :=
  (g.installed.filter (·.1 = p)).map (·.2)

theorem layers_absorb_self : (g.absorb p k r).layers p = r.2 :=
  Function.update_self ..

theorem layers_absorb_of_ne (hq : q ≠ p) : (g.absorb p k r).layers q = g.layers q :=
  Function.update_of_ne hq ..

theorem position_absorb_self : (g.absorb p k r).position p = k :=
  Function.update_self ..

theorem position_absorb_of_ne (hq : q ≠ p) : (g.absorb p k r).position q = g.position q :=
  Function.update_of_ne hq ..

theorem views_absorb_self : (g.absorb p k r).views p = g.views p ++ r.1.newViews := by
  simp [views, absorb, List.filter_append, List.filter_map, Function.comp_def]

theorem views_absorb_of_ne (hq : q ≠ p) : (g.absorb p k r).views q = g.views q := by
  simp [views, absorb, List.filter_append, List.filter_map, Function.comp_def, Ne.symm hq]

/-! ### Where a process stands -/

/-- A process has the view of the operations behind it, or waits for its transfer with those that it
was fed. -/
structure Placed (initial : List Proc) (ops : List MembershipOp) (start : Proc → Nat)
    (g : MembershipGroup) (p : Proc) : Prop where
  here : (g.layers p).here = p
  stands : (g.layers p).view = some (agreed initial (ops.take (g.position p))) ∨
    p ∉ initial ∧ (g.layers p).view = none ∧ start p ≤ g.position p ∧
      (g.layers p).waiting = (ops.take (g.position p)).drop (start p)
  chain : (g.views p).IsChain View.Next
  last : (g.views p).getLast? = (g.layers p).view

structure Agreeing (initial : List Proc) (ops : List MembershipOp) (start : Proc → Nat)
    (g : MembershipGroup) : Prop where
  placed : ∀ p, Placed initial ops start g p
  installs : ∀ x ∈ g.installed, ∃ zs, zs <+: ops ∧ x.2 = agreed initial zs
  introduces : ∀ x ∈ g.sent, ∃ zs, zs ++ [.add x.1] <+: ops ∧ x.2 = .introducing initial zs x.1

theorem opening_of_mem (hn : initial.Nodup) (hp : p ∈ initial) : opening initial p =
    ({ directives := [.joinList initial], newViews := [⟨0, initial⟩] },
      { here := p, view := some ⟨0, initial⟩ }) := by
  have hne : initial ≠ [] := List.ne_nil_of_mem hp
  simp [opening, MembershipLayer.init, MembershipLayer.adopt, hp, hne,
    Proc.firstRepeated?_eq_none.mpr hn]

theorem opening_of_not_mem (hp : p ∉ initial) : opening initial p = ({}, { here := p }) := by
  simp [opening, MembershipLayer.init, hp]

theorem views_opened (hn : initial.Nodup) :
    (opened initial start).views p = if p ∈ initial then [⟨0, initial⟩] else [] := by
  have hviews : ∀ p ∈ initial, (opening initial p).1.newViews.map (p, ·) = [(p, ⟨0, initial⟩)] := by
    intro p hp
    rw [opening_of_mem hn hp]
    rfl
  have hinstalled : (opened initial start).installed = initial.map (·, ⟨0, initial⟩) := by
    rw [opened, List.flatMap_congr hviews, ← List.map_eq_flatMap]
  rw [views, hinstalled, List.filter_map, List.map_map]
  change ((initial.filter (· = p)).map fun _ => (⟨0, initial⟩ : View)) = _
  rw [List.filter_eq, hn.count]
  split <;> rfl

theorem agreeing_opened (hn : initial.Nodup) :
    Agreeing initial ops start (opened initial start) := by
  refine ⟨fun p => ?_, ?_, by simp [opened]⟩
  · by_cases hp : p ∈ initial
    · have hviews : (opened initial start).views p = _ := views_opened hn
      have hlayer : (opened initial start).layers p = { here := p, view := some ⟨0, initial⟩ } :=
        congrArg Prod.snd (opening_of_mem hn hp)
      have hposition : (opened initial start).position p = 0 := if_pos hp
      rw [if_pos hp] at hviews
      refine ⟨?_, .inl ?_, ?_, ?_⟩
      · rw [hlayer]
      · rw [hlayer, hposition]
        rfl
      · rw [hviews]
        exact List.isChain_singleton _
      · rw [hviews, hlayer]
        rfl
    · have hviews : (opened initial start).views p = _ := views_opened hn
      have hlayer : (opened initial start).layers p = { here := p } :=
        congrArg Prod.snd (opening_of_not_mem hp)
      have hposition : (opened initial start).position p = start p := if_neg hp
      rw [if_neg hp] at hviews
      refine ⟨?_, .inr ⟨hp, ?_, ?_, ?_⟩, ?_, ?_⟩
      · rw [hlayer]
      · rw [hlayer]
      · rw [hposition]
      · rw [hlayer, hposition, List.drop_take, Nat.sub_self, List.take_zero]
      · rw [hviews]
        exact List.isChain_nil
      · rw [hviews, hlayer]
        rfl
  · intro x hx
    obtain ⟨p, hp, hx⟩ := List.mem_flatMap.mp hx
    rw [opening_of_mem hn hp] at hx
    cases List.mem_singleton.mp hx
    exact ⟨[], List.nil_prefix, rfl⟩

/-! ### What a step keeps -/

/-- The other processes stay where they are. -/
theorem Agreeing.absorb (h : Agreeing initial ops start g)
    (hp : Placed initial ops start (g.absorb p k r) p)
    (hinstalls : ∀ v ∈ r.1.newViews, ∃ zs, zs <+: ops ∧ v = agreed initial zs)
    (hintroduces : ∀ x ∈ r.1.transfers, ∃ zs, zs ++ [.add x.1] <+: ops ∧
      x.2 = .introducing initial zs x.1) :
    Agreeing initial ops start (g.absorb p k r) := by
  refine ⟨fun q => ?_, fun x hx => ?_, fun x hx => ?_⟩
  · by_cases hq : q = p
    · rwa [hq]
    · obtain ⟨hhere, hstands, hchain, hlast⟩ := h.placed q
      constructor
      · rwa [layers_absorb_of_ne hq]
      · rwa [layers_absorb_of_ne hq, position_absorb_of_ne hq]
      · rwa [views_absorb_of_ne hq]
      · rwa [views_absorb_of_ne hq, layers_absorb_of_ne hq]
  · rcases List.mem_append.mp hx with hx | hx
    · exact h.installs x hx
    · obtain ⟨v, hv, rfl⟩ := List.mem_map.mp hx
      exact hinstalls v hv
  · rcases List.mem_append.mp hx with hx | hx
    · exact h.introduces x hx
    · exact hintroduces x hx

/-- A process that has the view of the operations behind it goes on to later ones. -/
theorem Agreeing.follow (h : Agreeing initial ops start g)
    (hview : (g.layers p).view = some (agreed initial past))
    (hr : (g.layers p).Follows initial past ys r) (hk : ops.take k = past ++ ys) :
    Agreeing initial ops start (g.absorb p k r) := by
  have htaken : past ++ ys <+: ops := hk ▸ List.take_prefix k ops
  have hlast := (h.placed p).last
  rw [hview] at hlast
  obtain ⟨hhead, htail⟩ := List.isChain_cons.mp hr.chain
  refine h.absorb ⟨?_, .inl ?_, ?_, ?_⟩ ?_ ?_
  · rw [layers_absorb_self, hr.here, (h.placed p).here]
  · rw [layers_absorb_self, position_absorb_self, hk, hr.view]
  · rw [views_absorb_self]
    refine (h.placed p).chain.append htail fun v hv => ?_
    rw [hlast] at hv
    cases hv
    exact hhead
  · rw [views_absorb_self, layers_absorb_self, hr.view, List.getLast?_append, hlast, ← hr.last,
      List.getLast?_cons]
    cases r.1.newViews.getLast? <;> rfl
  · intro v hv
    obtain ⟨zs, hzs, hv⟩ := hr.installs v hv
    exact ⟨zs, hzs.trans htaken, hv⟩
  · intro x hx
    obtain ⟨zs, hzs, hx⟩ := hr.introduces x hx
    exact ⟨zs, hzs.trans htaken, hx⟩

theorem Agreeing.feed (h : Agreeing initial ops start g) :
    Agreeing initial ops start (g.step ops (.feed p)) := by
  cases hop : ops[g.position p]? with
  | none => rwa [step, hop]
  | some op =>
    have htake : ops.take (g.position p + 1) = ops.take (g.position p) ++ [op] := by
      rw [List.take_add_one, hop, Option.toList_some]
    simp only [step, hop]
    rcases (h.placed p).stands with hview | ⟨hp, hview, hstart, hwaiting⟩
    · exact h.follow hview (MembershipLayer.follows_adeliver hview) htake
    · have hlength : start p ≤ (ops.take (g.position p)).length := by
        have hposition := (List.getElem?_eq_some_iff.mp hop).1
        rw [List.length_take]
        omega
      rw [MembershipLayer.adeliver_waits hview]
      refine h.absorb ⟨?_, .inr ⟨hp, ?_, ?_, ?_⟩, ?_, ?_⟩ (by simp) (by simp)
      · rw [layers_absorb_self]
        exact (h.placed p).here
      · rw [layers_absorb_self]
        exact hview
      · rw [position_absorb_self]
        exact Nat.le_succ_of_le hstart
      · rw [layers_absorb_self, position_absorb_self, htake,
          List.drop_append_of_le_length hlength, ← hwaiting]
      · rw [views_absorb_self, List.append_nil]
        exact (h.placed p).chain
      · rw [views_absorb_self, List.append_nil, layers_absorb_self]
        exact (h.placed p).last

/-- An operation that comes once comes at its index. -/
theorem index_of_once {op : MembershipOp} (hone : ops.count op ≤ 1) (h : zs ++ [op] <+: ops) :
    op ∉ zs ∧ zs.length = ops.idxOf op := by
  obtain ⟨rest, rfl⟩ := h
  have hnew : op ∉ zs := by
    rw [List.count_append, List.count_append, List.count_singleton_self] at hone
    exact List.count_eq_zero.mp (by omega)
  refine ⟨hnew, ?_⟩
  rw [List.append_assoc, List.idxOf_append_of_notMem hnew, List.singleton_append,
    List.idxOf_cons_self, Nat.add_zero]

/-- A transfer to a process that was fed its addition reflects what comes before this addition. -/
theorem Agreeing.introduced (h : Agreeing initial ops start g) (hone : ops.count (.add p) ≤ 1)
    (ht : (p, t) ∈ g.sent) (hfed : .add p ∈ ops.take (g.position p)) :
    ∃ zs rest, t = .introducing initial zs p ∧ ops.take (g.position p) = zs ++ .add p :: rest ∧
      .add p ∉ zs ∧ zs.length = ops.idxOf (.add p) := by
  obtain ⟨zs, hzs, rfl : t = .introducing initial zs p⟩ := h.introduces _ ht
  obtain ⟨xs, rest, htake⟩ := List.append_of_mem hfed
  have hxs : xs ++ [.add p] <+: ops :=
    List.IsPrefix.trans ⟨rest, by rw [htake, List.append_assoc, List.singleton_append]⟩
      (List.take_prefix (g.position p) ops)
  obtain ⟨hfresh, hlength⟩ := index_of_once hone hzs
  have hsame : xs = zs := by
    rw [List.prefix_iff_eq_take.mp ((List.prefix_append xs _).trans hxs),
      List.prefix_iff_eq_take.mp ((List.prefix_append zs _).trans hzs), hlength,
      (index_of_once hone hxs).2]
  subst hsame
  exact ⟨xs, rest, rfl, htake, hfresh, hlength⟩

/-- A joiner without a view takes up the one that its own addition makes, and applies what it was
fed since. -/
theorem Agreeing.catches_up (h : Agreeing initial ops start g) (hn : initial.Nodup)
    (hone : ops.count (.add p) ≤ 1) (hstart : .add p ∈ ops → start p ≤ ops.idxOf (.add p))
    (hview : (g.layers p).view = none) (ht : (p, t) ∈ g.sent)
    (hfed : .add p ∈ ops.take (g.position p)) :
    ∃ zs rest o, .add p ∉ zs ∧ ops.take (g.position p) = zs ++ [.add p] ++ rest ∧
      let first := agreed initial (zs ++ [.add p])
      let r := { g.layers p with view := some first, waiting := [] }.adeliverAll rest
      (g.layers p).deliverState t = .ok (o, r.2) ∧ o.newViews = first :: r.1.newViews ∧
        o.transfers = r.1.transfers := by
  have htaken : ops.take (g.position p) <+: ops := List.take_prefix ..
  obtain ⟨zs, rest, rfl, htake, hfresh, hlength⟩ := h.introduced hone ht hfed
  have hstays : (g.layers p).waiting = zs.drop (start p) ++ .add p :: rest := by
    have hfrom : start p ≤ zs.length := hlength ▸ hstart (htaken.mem hfed)
    rcases (h.placed p).stands with hsome | ⟨-, -, -, hwaiting⟩
    · rw [hview] at hsome
      cases hsome
    · rw [hwaiting, htake, List.drop_append_of_le_length hfrom]
  obtain ⟨o, ho⟩ := MembershipLayer.deliverState_replays zs hn (h.placed p).here hview hstays
    fun hmem => hfresh (List.mem_of_mem_drop hmem)
  refine ⟨zs, rest, o, hfresh, ?_, ho⟩
  rw [htake, List.append_assoc, List.singleton_append]

theorem Agreeing.transfer (h : Agreeing initial ops start g) (hn : initial.Nodup)
    (hone : ∀ p ∉ initial, ops.count (.add p) ≤ 1)
    (hstart : ∀ p ∉ initial, .add p ∈ ops → start p ≤ ops.idxOf (.add p))
    (ht : (p, t) ∈ g.sent) (hfed : p ∈ initial ∨ .add p ∈ ops.take (g.position p)) :
    Agreeing initial ops start (g.step ops (.transfer p t)) := by
  have htaken : ops.take (g.position p) <+: ops := List.take_prefix ..
  rcases (h.placed p).stands with hview | ⟨hp, hview, -, -⟩
  · have hsome : (g.layers p).view.isSome = true := by rw [hview]; rfl
    simp only [step, MembershipLayer.deliverState_ignored hsome]
    exact h.follow hview (.refl hview) (List.append_nil _).symm
  · obtain ⟨zs, rest, o, -, hwhole, hr, hfirst, hpassed⟩ := h.catches_up hn (hone p hp)
      (hstart p hp) hview ht (hfed.resolve_left hp)
    have hviews : g.views p = [] := by
      rw [← List.getLast?_eq_none_iff, (h.placed p).last, hview]
    let first := agreed initial (zs ++ [.add p])
    let l := { g.layers p with view := some first, waiting := [] }
    have hfollows : l.Follows initial (zs ++ [.add p]) rest (l.adeliverAll rest) :=
      MembershipLayer.follows_adeliverAll rfl
    rw [hwhole] at htaken
    simp only [step, hr]
    refine h.absorb ⟨?_, .inl ?_, ?_, ?_⟩ ?_ ?_
    · rw [layers_absorb_self]
      exact hfollows.here.trans (h.placed p).here
    · rw [layers_absorb_self, position_absorb_self, hwhole, hfollows.view]
    · rw [views_absorb_self, hviews, List.nil_append, hfirst]
      exact hfollows.chain
    · rw [views_absorb_self, hviews, List.nil_append, hfirst, layers_absorb_self, hfollows.view]
      exact hfollows.last
    · rw [hfirst]
      intro v hv
      rcases List.mem_cons.mp hv with rfl | hv
      · exact ⟨_, (List.prefix_append _ rest).trans htaken, rfl⟩
      · obtain ⟨zs, hzs, hv⟩ := hfollows.installs v hv
        exact ⟨zs, hzs.trans htaken, hv⟩
    · rw [hpassed]
      intro x hx
      obtain ⟨zs, hzs, hx⟩ := hfollows.introduces x hx
      exact ⟨zs, hzs.trans htaken, hx⟩

/-! ### Runs -/

theorem isSome_step (hv : (g.layers p).view.isSome = true) :
    ((g.step ops a).layers p).view.isSome = true := by
  cases a with
  | feed q =>
    simp only [step]
    split
    · by_cases hq : p = q
      · subst hq
        rw [layers_absorb_self]
        exact MembershipLayer.isSome_adeliver hv
      · rwa [layers_absorb_of_ne hq]
    · exact hv
  | transfer q t =>
    by_cases hq : p = q
    · subst hq
      rwa [step, MembershipLayer.deliverState_ignored hv, layers_absorb_self]
    · simp only [step]
      split
      · rwa [layers_absorb_of_ne hq]
      · exact hv

theorem isSome_run (hv : (g.layers p).view.isSome = true) :
    ((g.run ops actions).layers p).view.isSome = true := by
  induction actions generalizing g with
  | nil => exact hv
  | cons a actions ih => exact ih (isSome_step hv)

section Runs

variable (hn : initial.Nodup) (hone : ∀ p ∉ initial, ops.count (.add p) ≤ 1)
  (hstart : ∀ p ∉ initial, .add p ∈ ops → start p ≤ ops.idxOf (.add p))
include hn hone hstart

theorem Agreeing.step (h : Agreeing initial ops start g) (ha : Permitted initial ops g a) :
    Agreeing initial ops start (g.step ops a) := by
  cases a with
  | feed p => exact h.feed
  | transfer p t => exact h.transfer hn hone hstart ha.1 ha.2

theorem agreeing_run (h : Agreeing initial ops start g) (hrun : Proper initial ops g actions) :
    Agreeing initial ops start (g.run ops actions) := by
  induction actions generalizing g with
  | nil => exact h
  | cons a actions ih => exact ih (h.step hn hone hstart hrun.1) hrun.2

/-- A process to which a transfer came has a view. -/
theorem joined (h : Agreeing initial ops start g) (hrun : Proper initial ops g actions)
    (ht : .transfer p t ∈ actions) : ((g.run ops actions).layers p).view.isSome = true := by
  induction actions generalizing g with
  | nil => cases ht
  | cons a actions ih =>
    rcases List.mem_cons.mp ht with rfl | ht
    · obtain ⟨zs, -, hzs⟩ := h.introduces _ hrun.1.1
      have hnodup : t.members.Nodup := by
        rw [show t = _ from hzs]
        exact View.nodup_agreed hn
      obtain ⟨r, hr, hsome⟩ := MembershipLayer.deliverState_isSome (l := g.layers p) hnodup
      refine isSome_run (g := g.step ops (.transfer p t)) ?_
      simp only [step, hr]
      rwa [layers_absorb_self]
    · exact ih (h.step hn hone hstart hrun.1) hrun.2 ht

end Runs

/-- All views that agree in their number are the same view, the views of a process are numbered one
after the other, and who has joined stands where an initial member stands after the same
operations. -/
theorem views_agree (hn : initial.Nodup) (hone : ∀ p ∉ initial, ops.count (.add p) ≤ 1)
    (hstart : ∀ p ∉ initial, .add p ∈ ops → start p ≤ ops.idxOf (.add p))
    (hrun : Proper initial ops (opened initial start) actions) :
    let g := (opened initial start).run ops actions
    (∀ p q, ∀ v ∈ g.views p, ∀ w ∈ g.views q, v.id = w.id → v = w) ∧
    (∀ p, (g.views p).IsChain View.Next) ∧
    ∀ p, (p ∈ initial ∨ ∃ t, .transfer p t ∈ actions) →
      (g.layers p).view.isSome = true ∧ ∀ q ∈ initial, (g.layers p).view =
        ((opening initial q).2.adeliverAll (ops.take (g.position p))).2.view := by
  intro g
  have hg : Agreeing initial ops start g := agreeing_run hn hone hstart (agreeing_opened hn) hrun
  have hagreed : ∀ p, ∀ v ∈ g.views p, ∃ zs, zs <+: ops ∧ v = agreed initial zs := by
    intro p v hv
    obtain ⟨x, hx, rfl⟩ := List.mem_map.mp hv
    exact hg.installs x (List.mem_of_mem_filter hx)
  refine ⟨fun p q v hv w hw hid => ?_, fun p => (hg.placed p).chain, fun p hp => ?_⟩
  · obtain ⟨xs, hxs, rfl⟩ := hagreed p v hv
    obtain ⟨ys, hys, rfl⟩ := hagreed q w hw
    exact View.agreed_eq_of_id hxs hys hid
  · have hsome : (g.layers p).view.isSome = true := by
      rcases hp with hp | ⟨t, ht⟩
      · refine isSome_run ?_
        change (opening initial p).2.view.isSome = true
        rw [opening_of_mem hn hp]
        rfl
      · exact joined hn hone hstart (agreeing_opened hn) hrun ht
    refine ⟨hsome, fun q hq => ?_⟩
    have hmember : (opening initial q).2.view = some (agreed initial []) := by
      rw [opening_of_mem hn hq]
      rfl
    rcases (hg.placed p).stands with hview | ⟨-, hview, -⟩
    · rw [hview, (MembershipLayer.follows_adeliverAll hmember).view, List.nil_append]
    · rw [hview] at hsome
      cases hsome

/-- Two processes join and the member that was first leaves. -/
def handover (a b c : Proc) : List MembershipOp := [.add b, .add c, .remove a]

/-- The second to join has fed on from its own addition. -/
theorem handover_agrees : let a : Proc := ⟨"a", 1, 0⟩
    let b : Proc := ⟨"b", 1, 0⟩
    let c : Proc := ⟨"c", 1, 0⟩
    let actions : List Action := [.feed a, .feed b, .transfer b ⟨1, [a, b], [b]⟩, .feed a, .feed c,
      .feed c, .transfer c ⟨2, [a, b, c], [c]⟩, .feed b, .transfer b ⟨1, [a, b], [b]⟩]
    let start : Proc → Nat := fun p => if p = c then 1 else 0
    let g := (opened [a] start).run (handover a b c) actions
    (∀ p q, ∀ v ∈ g.views p, ∀ w ∈ g.views q, v.id = w.id → v = w) ∧
    (g.layers c).view = some ⟨3, [b, c]⟩ := by
  intro a b c actions start
  have hone : ∀ p ∉ [a], (handover a b c).count (.add p) ≤ 1 := by
    intro p _
    have hbc : b ≠ c := by decide
    simp only [handover, List.count_cons, List.count_nil]
    grind
  have hstart : ∀ p ∉ [a], .add p ∈ handover a b c →
      start p ≤ (handover a b c).idxOf (.add p) := by
    intro p _ _
    simp only [start]
    split
    · rename_i hp
      rw [hp]
      decide
    · exact Nat.zero_le _
  have hrun : Proper [a] (handover a b c) (opened [a] start) actions := by decide
  obtain ⟨hsame, -, hjoined⟩ := views_agree (by decide) hone hstart hrun
  refine ⟨hsame, ?_⟩
  exact ((hjoined c (.inr ⟨⟨2, [a, b, c], [c]⟩, by decide⟩)).2 a (by decide)).trans (by decide)

end MembershipGroup

end Multicast
