import Mathlib.Data.List.Chain
import Multicast.Membership
import Multicast.Proofs.Ascending

/-! The views that agreed operations make, and how a membership layer follows them. -/
namespace Multicast

namespace View
variable {initial : List Proc} {past ops xs ys : List MembershipOp} {op : MembershipOp}
  {v w : View}

/-- The view that agreed operations make of the list of the initial members. -/
def agreed (initial : List Proc) (ops : List MembershipOp) : View :=
  ops.foldl (fun v op => (MembershipLayer.change? v op).getD v) ⟨0, initial⟩

/-- `w` comes next after `v`. -/
def Next (v w : View) : Prop := w.id = v.id + 1

theorem next_of_change (h : MembershipLayer.change? v op = some w) : v.Next w := by
  cases op with
  | add p =>
    simp only [MembershipLayer.change?] at h
    split at h
    · cases h
    · cases h
      rfl
  | remove p =>
    simp only [MembershipLayer.change?] at h
    split at h
    · cases h
      rfl
    · cases h

theorem nodup_of_change (h : MembershipLayer.change? v op = some w) (hv : v.members.Nodup) :
    w.members.Nodup := by
  cases op with
  | add p =>
    simp only [MembershipLayer.change?] at h
    split at h
    · cases h
    · rename_i hp
      cases h
      exact List.nodup_append.mpr ⟨hv, by simp, by grind⟩
  | remove p =>
    simp only [MembershipLayer.change?] at h
    split at h
    · cases h
      exact hv.erase p
    · cases h

theorem agreed_append_singleton : agreed initial (past ++ [op]) =
    (MembershipLayer.change? (agreed initial past) op).getD (agreed initial past) := by
  simp [agreed, List.foldl_append]

theorem agreed_of_change (h : MembershipLayer.change? (agreed initial past) op = some w) :
    agreed initial (past ++ [op]) = w := by
  rw [agreed_append_singleton, h, Option.getD_some]

theorem agreed_of_no_change (h : MembershipLayer.change? (agreed initial past) op = none) :
    agreed initial (past ++ [op]) = agreed initial past := by
  rw [agreed_append_singleton, h, Option.getD_none]

theorem nodup_agreed (hn : initial.Nodup) : (agreed initial ops).members.Nodup := by
  induction ops using List.reverseRecOn with
  | nil => exact hn
  | append_singleton ops op ih =>
    cases h : MembershipLayer.change? (agreed initial ops) op with
    | none => rwa [agreed_of_no_change h]
    | some w =>
      rw [agreed_of_change h]
      exact nodup_of_change h ih

/-- An operation that changes the view gives it a higher number. -/
theorem agreed_append : (agreed initial xs).id ≤ (agreed initial (xs ++ ys)).id ∧
    ((agreed initial xs).id = (agreed initial (xs ++ ys)).id →
      agreed initial xs = agreed initial (xs ++ ys)) := by
  induction ys using List.reverseRecOn with
  | nil => simp
  | append_singleton ys op ih =>
    rw [← List.append_assoc]
    cases h : MembershipLayer.change? (agreed initial (xs ++ ys)) op with
    | none => rwa [agreed_of_no_change h]
    | some w =>
      have hnext : w.id = (agreed initial (xs ++ ys)).id + 1 := next_of_change h
      rw [agreed_of_change h]
      constructor
      · rw [hnext]
        exact Nat.le_succ_of_le ih.1
      · intro heq
        have hle := ih.1
        rw [heq, hnext] at hle
        exact (Nat.not_succ_le_self _ hle).elim

/-- A number belongs to one view. -/
theorem agreed_eq_of_id (hx : xs <+: ops) (hy : ys <+: ops)
    (hid : (agreed initial xs).id = (agreed initial ys).id) :
    agreed initial xs = agreed initial ys := by
  rcases List.prefix_or_prefix_of_prefix hx hy with ⟨rest, rfl⟩ | ⟨rest, rfl⟩
  · exact agreed_append.2 hid
  · exact (agreed_append.2 hid.symm).symm

end View

/-- The state that introduces `p`: the view that the operation adding it makes after those of
`past`. -/
def StateTransfer.introducing (initial : List Proc) (past : List MembershipOp) (p : Proc) :
    StateTransfer :=
  let v := View.agreed initial (past ++ [.add p])
  ⟨v.id, v.members, [p]⟩

namespace MembershipLayer
open View (agreed)

variable {l : MembershipLayer} {initial : List Proc} {past xs ys waiting rest : List MembershipOp}
  {op : MembershipOp} {p : Proc} {t : StateTransfer} {r r' : MembershipOutput × MembershipLayer}

/-- With the view of the operations `past`, the layer goes on to that of `ops` after them. -/
structure Follows (initial : List Proc) (past ops : List MembershipOp) (l : MembershipLayer)
    (r : MembershipOutput × MembershipLayer) : Prop where
  here : r.2.here = l.here
  view : r.2.view = some (agreed initial (past ++ ops))
  chain : (agreed initial past :: r.1.newViews).IsChain View.Next
  last : (agreed initial past :: r.1.newViews).getLast? = some (agreed initial (past ++ ops))
  installs : ∀ v ∈ r.1.newViews, ∃ zs, zs <+: past ++ ops ∧ v = agreed initial zs
  introduces : ∀ x ∈ r.1.transfers, ∃ zs, zs ++ [.add x.1] <+: past ++ ops ∧
    x.2 = .introducing initial zs x.1

theorem Follows.refl (h : l.view = some (agreed initial past)) :
    l.Follows initial past [] ({}, l) := by
  refine ⟨rfl, ?_, List.isChain_singleton _, ?_, by simp, by simp⟩
  · rwa [List.append_nil]
  · rw [List.append_nil]
    rfl

theorem Follows.trans (h : l.Follows initial past xs r)
    (h' : r.2.Follows initial (past ++ xs) ys r') :
    l.Follows initial past (xs ++ ys) (r.1 ++ r'.1, r'.2) := by
  have hviews : (r.1 ++ r'.1).newViews = r.1.newViews ++ r'.1.newViews := rfl
  have htransfers : (r.1 ++ r'.1).transfers = r.1.transfers ++ r'.1.transfers := rfl
  have hpast : past ++ (xs ++ ys) = past ++ xs ++ ys := (List.append_assoc _ _ _).symm
  have hlonger : past ++ xs <+: past ++ xs ++ ys := List.prefix_append _ _
  obtain ⟨hhead, htail⟩ := List.isChain_cons.mp h'.chain
  refine ⟨h'.here.trans h.here, ?_, ?_, ?_, ?_, ?_⟩
  · rw [hpast]
    exact h'.view
  · rw [hviews, ← List.cons_append]
    refine h.chain.append htail fun v hv => ?_
    rw [h.last] at hv
    cases hv
    exact hhead
  · have hlast := h'.last
    rw [List.getLast?_cons] at hlast
    rw [hviews, ← List.cons_append, List.getLast?_append, h.last, hpast, ← hlast]
    cases r'.1.newViews.getLast? <;> rfl
  · rw [hpast, hviews]
    intro v hv
    rcases List.mem_append.mp hv with hv | hv
    · obtain ⟨zs, hzs, rfl⟩ := h.installs v hv
      exact ⟨zs, hzs.trans hlonger, rfl⟩
    · exact h'.installs v hv
  · rw [hpast, htransfers]
    intro x hx
    rcases List.mem_append.mp hx with hx | hx
    · obtain ⟨zs, hzs, hx⟩ := h.introduces x hx
      exact ⟨zs, hzs.trans hlonger, hx⟩
    · exact h'.introduces x hx

theorem follows_adeliver (h : l.view = some (agreed initial past)) :
    l.Follows initial past [op] (l.adeliver op) := by
  simp only [adeliver, h, apply]
  cases hc : change? (agreed initial past) op with
  | none =>
    have hsame := View.agreed_of_no_change hc
    refine ⟨rfl, ?_, List.isChain_singleton _, ?_, by simp, by simp⟩
    · rw [hsame]
      exact h
    · rw [hsame]
      rfl
  | some w =>
    have hw := View.agreed_of_change hc
    have hviews : (l.announce (agreed initial past) w op).newViews = [w] := by cases op <;> rfl
    refine ⟨rfl, ?_, ?_, ?_, ?_, ?_⟩
    · rw [hw]
    · rw [hviews]
      exact List.isChain_pair.mpr (View.next_of_change hc)
    · rw [hviews, hw]
      rfl
    · rw [hviews]
      intro v hv
      rw [List.mem_singleton] at hv
      exact ⟨past ++ [op], List.prefix_refl _, by rw [hv, hw]⟩
    · intro x hx
      cases op with
      | remove p => cases hx
      | add p =>
        simp only [announce] at hx
        split at hx
        · rw [List.mem_singleton] at hx
          subst hx
          exact ⟨past, List.prefix_refl _, by rw [StateTransfer.introducing, hw]⟩
        · cases hx

theorem follows_adeliverAll (h : l.view = some (agreed initial past)) :
    l.Follows initial past ys (l.adeliverAll ys) := by
  induction ys generalizing l past with
  | nil => exact .refl h
  | cons op ys ih =>
    have hfirst : l.Follows initial past [op] (l.adeliver op) := follows_adeliver h
    exact hfirst.trans (ih hfirst.view)

/-! ### Joining -/

/-- A transfer covers what waits up to the operation that adds the joiner. -/
theorem covered_singleton (hn : .add p ∉ xs) :
    covered [p] (xs ++ .add p :: rest) = xs.length + 1 := by
  have hidx : (xs ++ .add p :: rest).idxOf? (.add p) = some xs.length := by
    induction xs with
    | nil => simp [List.idxOf?_cons]
    | cons op xs ih =>
      obtain ⟨hop, hxs⟩ := not_or.mp (List.mem_cons.not.mp hn)
      rw [List.cons_append, List.idxOf?_cons, ih hxs]
      simp [Ne.symm hop]
  simp [covered, hidx]

/-- The joiner takes up the view of the transfer and applies what came after it. -/
theorem deliverState_replays (zs : List MembershipOp) (hn : initial.Nodup) (hp : l.here = p)
    (hv : l.view = none) (hw : l.waiting = waiting ++ .add p :: rest) (hfresh : .add p ∉ waiting) :
    let first := agreed initial (zs ++ [.add p])
    let r := { l with view := some first, waiting := [] }.adeliverAll rest
    ∃ o, l.deliverState (.introducing initial zs p) = .ok (o, r.2) ∧
      o.newViews = first :: r.1.newViews ∧ o.transfers = r.1.transfers := by
  intro first r
  subst hp
  have hnodup : Proc.firstRepeated? first.members = none :=
    Proc.firstRepeated?_eq_none.mpr (View.nodup_agreed hn)
  have hadopt : l.adopt ⟨first.id, first.members⟩ =
      .ok ({ directives := [.joinList first.members], newViews := [first] },
        { l with view := some first }) := by
    simp only [adopt, hnodup]
  have hdrop : l.waiting.drop (covered [l.here] l.waiting) = rest := by
    rw [hw, covered_singleton hfresh, List.drop_append]
    simp
  have hnone : ([l.here].filter (· ≠ l.here)) = [] := by simp
  let adopted : MembershipOutput :=
    { directives := [.joinList first.members], newViews := [first] }
  refine ⟨adopted ++ {} ++ r.1, ?_, rfl, rfl⟩
  change l.deliverState ⟨first.id, first.members, [l.here]⟩ = _
  simp only [deliverState, hv, hadopt, hdrop, hnone]
  rfl

/-- Once there is a view, a transfer does nothing. -/
theorem deliverState_ignored (hv : l.view.isSome = true) : l.deliverState t = .ok ({}, l) := by
  simp only [deliverState, hv, if_true]

/-- Without a view, an operation waits. -/
theorem adeliver_waits (hv : l.view = none) :
    l.adeliver op = ({}, { l with waiting := l.waiting ++ [op] }) := by
  simp only [adeliver, hv]

theorem isSome_adeliver (hv : l.view.isSome = true) : (l.adeliver op).2.view.isSome = true := by
  obtain ⟨v, hv⟩ := Option.isSome_iff_exists.mp hv
  simp only [adeliver, hv, apply]
  cases change? v op with
  | none => simp [hv]
  | some w => rfl

theorem isSome_adeliverAll (hv : l.view.isSome = true) :
    (l.adeliverAll ys).2.view.isSome = true := by
  induction ys generalizing l with
  | nil => exact hv
  | cons op ys ih => exact ih (isSome_adeliver hv)

/-- There is a view after a transfer. -/
theorem deliverState_isSome (ht : t.members.Nodup) :
    ∃ r, l.deliverState t = .ok r ∧ r.2.view.isSome = true := by
  cases hv : l.view with
  | some v =>
    have hsome : l.view.isSome = true := by rw [hv]; rfl
    exact ⟨_, deliverState_ignored hsome, hsome⟩
  | none =>
    simp only [deliverState, hv, adopt, Proc.firstRepeated?_eq_none.mpr ht]
    exact ⟨_, rfl, isSome_adeliverAll rfl⟩

end MembershipLayer

/-! ### Views without repetition -/

namespace MembershipLayer

variable {l l' : MembershipLayer} {o o' : MembershipOutput} {v : View} {op : MembershipOp}

/-- No view has a member twice. -/
structure Distinct (o : MembershipOutput) (l : MembershipLayer) : Prop where
  views : ∀ v ∈ o.newViews, v.members.Nodup
  view : ∀ v, l.view = some v → v.members.Nodup

theorem Distinct.append (h : Distinct o l) (h' : Distinct o' l') : Distinct (o ++ o') l' := by
  refine ⟨fun v hv => ?_, h'.view⟩
  rcases List.mem_append.mp (show v ∈ o.newViews ++ o'.newViews from hv) with hv | hv
  · exact h.views v hv
  · exact h'.views v hv

theorem distinct_silent (h : ∀ v, l.view = some v → v.members.Nodup) (ho : o.newViews = []) :
    Distinct o l :=
  ⟨by simp [ho], h⟩

theorem distinct_adopt (h : l.adopt v = .ok (o, l')) : Distinct o l' := by
  unfold adopt at h
  split at h
  · cases h
  · rename_i hnone
    cases h
    have hnodup : v.members.Nodup := Proc.firstRepeated?_eq_none.mp hnone
    refine ⟨fun w hw => ?_, fun w hw => ?_⟩
    · rwa [List.mem_singleton.mp hw]
    · rwa [← Option.some.inj hw]

theorem distinct_apply (h : ∀ v, l.view = some v → v.members.Nodup) (hv : v.members.Nodup) :
    Distinct (l.apply v op).1 (l.apply v op).2 := by
  unfold apply
  cases hc : change? v op with
  | none => exact distinct_silent h rfl
  | some next =>
    have hnext : next.members.Nodup := View.nodup_of_change hc hv
    have hviews : (l.announce v next op).newViews = [next] := by cases op <;> rfl
    refine ⟨fun w hw => ?_, fun w hw => ?_⟩
    · rw [hviews, List.mem_singleton] at hw
      rwa [hw]
    · rwa [← Option.some.inj hw]

theorem distinct_adeliver (h : ∀ v, l.view = some v → v.members.Nodup) :
    Distinct (l.adeliver op).1 (l.adeliver op).2 := by
  unfold adeliver
  split
  · exact distinct_silent h rfl
  · rename_i v hv
    exact distinct_apply h (h v hv)

theorem distinct_adeliverAll {ops : List MembershipOp}
    (h : ∀ v, l.view = some v → v.members.Nodup) :
    Distinct (l.adeliverAll ops).1 (l.adeliverAll ops).2 := by
  induction ops generalizing l with
  | nil => exact distinct_silent h rfl
  | cons op ops ih => exact (distinct_adeliver h).append (ih (distinct_adeliver h).view)

theorem distinct_init {members : List Proc} (hl : ∀ v, l.view = some v → v.members.Nodup)
    (h : l.init members = .ok (o, l')) : Distinct o l' := by
  unfold init at h
  split at h
  · cases h
  split at h
  · cases h
    exact distinct_silent hl rfl
  · exact distinct_adopt h

theorem distinct_deliverState {t : StateTransfer} (hl : ∀ v, l.view = some v → v.members.Nodup)
    (h : l.deliverState t = .ok (o, l')) : Distinct o l' := by
  unfold deliverState at h
  split at h
  · cases h
    exact distinct_silent hl rfl
  · split at h
    · cases h
    · rename_i first adopted hadopt
      cases h
      have hadopted : Distinct first adopted := distinct_adopt hadopt
      let passed : MembershipOutput :=
        { transfers := (t.added.filter (· ≠ adopted.here)).map fun p => (p, t) }
      have hpassed : Distinct (first ++ passed) adopted :=
        hadopted.append (distinct_silent hadopted.view rfl)
      exact hpassed.append (distinct_adeliverAll hadopted.view)

end MembershipLayer

end Multicast
