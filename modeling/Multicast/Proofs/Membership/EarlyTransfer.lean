import Multicast.Proofs.Membership.Agreement

/-! A state transfer that comes to a joiner before the operation that adds it. Nothing tells the
joiner how much of what it is fed the transfer reflects, so it applies all of it again. That does no
harm exactly if nothing of it can change the transferred view. -/
namespace Multicast

namespace View
open MembershipLayer (change?)

variable {v w : View} {ops xs ys : List MembershipOp} {op : MembershipOp} {p q : Proc}

/-- The view that operations make of `v`. -/
def after (v : View) (ops : List MembershipOp) : View :=
  ops.foldl (fun v op => (change? v op).getD v) v

/-- None of the operations finds anything to change in `v`. -/
def Absorbs (v : View) (ops : List MembershipOp) : Prop := ∀ op ∈ ops, change? v op = none

instance : Decidable (v.Absorbs ops) :=
  inferInstanceAs (Decidable (∀ op ∈ ops, change? v op = none))

/-- Both views have the same members, each in its own order. -/
structure Alike (v w : View) : Prop where
  left : v.members.Nodup
  right : w.members.Nodup
  mem : ∀ q, q ∈ v.members ↔ q ∈ w.members

theorem after_cons : v.after (op :: ops) = ((change? v op).getD v).after ops := rfl

theorem after_append : v.after (xs ++ ys) = (v.after xs).after ys := List.foldl_append ..

theorem id_le_change : v.id ≤ ((change? v op).getD v).id := by
  cases h : change? v op with
  | none => exact Nat.le_refl _
  | some w =>
    have hnext : w.id = v.id + 1 := next_of_change h
    rw [Option.getD_some, hnext]
    exact Nat.le_succ _

theorem id_le_after : v.id ≤ (v.after ops).id := by
  induction ops generalizing v with
  | nil => exact Nat.le_refl _
  | cons op ops ih => exact Nat.le_trans id_le_change ih

theorem after_of_absorbs (h : v.Absorbs ops) : v.after ops = v := by
  induction ops with
  | nil => rfl
  | cons op ops ih =>
    have hop : change? v op = none := h op List.mem_cons_self
    have hrest : v.Absorbs ops := fun o ho => h o (List.mem_cons_of_mem _ ho)
    rw [after_cons, hop]
    exact ih hrest

/-- Only operations that change nothing leave the number of a view as it is. -/
theorem absorbs_of_id (h : (v.after ops).id = v.id) : v.Absorbs ops := by
  induction ops with
  | nil =>
    intro op hop
    cases hop
  | cons op ops ih =>
    rw [after_cons] at h
    cases hop : change? v op with
    | none =>
      rw [hop] at h
      intro o ho
      rcases List.mem_cons.mp ho with rfl | ho
      · exact hop
      · exact ih h o ho
    | some w =>
      have hnext : w.id = v.id + 1 := next_of_change hop
      have hle : w.id ≤ (w.after ops).id := id_le_after
      rw [hop, Option.getD_some] at h
      rw [h, hnext] at hle
      exact (Nat.not_succ_le_self _ hle).elim

theorem nodup_change (h : v.members.Nodup) : ((change? v op).getD v).members.Nodup := by
  cases hop : change? v op with
  | none => exact h
  | some w => exact nodup_of_change hop h

theorem nodup_after (h : v.members.Nodup) : (v.after ops).members.Nodup := by
  induction ops generalizing v with
  | nil => exact h
  | cons op ops ih => exact ih (nodup_change h)

/-- An operation decides about the process it names, and about no other. -/
theorem mem_change (h : v.members.Nodup) :
    q ∈ ((change? v op).getD v).members ↔
      if q = op.process then op = .add q else q ∈ v.members := by
  cases op with
  | add p =>
    by_cases hp : p ∈ v.members <;> by_cases hq : q = p <;>
      simp_all [MembershipLayer.change?, MembershipOp.process]
  | remove p =>
    by_cases hp : p ∈ v.members <;> by_cases hq : q = p <;>
      simp_all [MembershipLayer.change?, MembershipOp.process, h.mem_erase_iff]

theorem mem_after_of_not_named (h : v.members.Nodup) (hq : ∀ op ∈ ops, op.process ≠ q) :
    q ∈ (v.after ops).members ↔ q ∈ v.members := by
  induction ops generalizing v with
  | nil => exact Iff.rfl
  | cons op ops ih =>
    have hop : q ≠ op.process := (hq op List.mem_cons_self).symm
    have hrest : ∀ o ∈ ops, o.process ≠ q := fun o ho => hq o (List.mem_cons_of_mem _ ho)
    rw [after_cons, ih (nodup_change h) hrest, mem_change h, if_neg hop]

/-- Once an operation has named a process, it does not matter whether it was a member before. -/
theorem mem_after_congr (hv : v.members.Nodup) (hw : w.members.Nodup)
    (hq : (∃ op ∈ ops, op.process = q) ∨ (q ∈ v.members ↔ q ∈ w.members)) :
    q ∈ (v.after ops).members ↔ q ∈ (w.after ops).members := by
  induction ops generalizing v w with
  | nil =>
    rcases hq with ⟨op, hop, -⟩ | hq
    · cases hop
    · exact hq
  | cons op ops ih =>
    rw [after_cons, after_cons]
    apply ih (nodup_change hv) (nodup_change hw)
    by_cases hop : q = op.process
    · right
      rw [mem_change hv, mem_change hw, if_pos hop, if_pos hop]
    · rcases hq with ⟨o, ho, hoq⟩ | hq
      · rcases List.mem_cons.mp ho with rfl | ho
        · exact (hop hoq.symm).elim
        · exact .inl ⟨o, ho, hoq⟩
      · right
        rw [mem_change hv, mem_change hw, if_neg hop, if_neg hop]
        exact hq

/-- To apply operations again makes no other members of the view they have made. -/
theorem alike_again (h : v.members.Nodup) : ((v.after ops).after ops).Alike (v.after ops) := by
  refine ⟨nodup_after (nodup_after h), nodup_after h, fun q => ?_⟩
  apply mem_after_congr (nodup_after h) h
  by_cases hnamed : ∃ op ∈ ops, op.process = q
  · exact .inl hnamed
  · right
    apply mem_after_of_not_named h
    intro op hop hq
    exact hnamed ⟨op, hop, hq⟩

/-- What changes one of two alike views changes the other, and leaves them alike. -/
theorem Alike.change (h : v.Alike w) (op : MembershipOp) :
    ((change? v op).getD v).Alike ((change? w op).getD w) ∧
      (((change? v op).getD v).id = ((change? w op).getD w).id ↔ v.id = w.id) := by
  refine ⟨⟨nodup_change h.left, nodup_change h.right, fun q => ?_⟩, ?_⟩
  · rw [mem_change h.left, mem_change h.right, h.mem q]
  · cases op with
    | add p => by_cases hp : p ∈ w.members <;> simp [MembershipLayer.change?, h.mem p, hp]
    | remove p => by_cases hp : p ∈ w.members <;> simp [MembershipLayer.change?, h.mem p, hp]

/-- Operations take two alike views equally far. -/
theorem Alike.after (h : v.Alike w) : (v.after ops).id = (w.after ops).id ↔ v.id = w.id := by
  induction ops generalizing v w with
  | nil => exact Iff.rfl
  | cons op ops ih =>
    obtain ⟨hnext, hid⟩ := h.change op
    exact (ih hnext).trans hid

/-- Whoever applies operations to the view they have made, and goes on, ends with the right view
exactly if they had nothing to change in it. -/
theorem again_eq_iff (h : v.members.Nodup) :
    (v.after ops).after (ops ++ ys) = (v.after ops).after ys ↔ (v.after ops).Absorbs ops := by
  constructor
  · intro heq
    apply absorbs_of_id
    rw [after_append] at heq
    exact (alike_again h).after.mp (congrArg View.id heq)
  · intro habsorbs
    rw [after_append, after_of_absorbs habsorbs]

end View

namespace MembershipLayer
open View (agreed)

variable {l : MembershipLayer} {v : View} {initial : List Proc}
  {before ys : List MembershipOp} {p : Proc} {t : StateTransfer}

theorem view_adeliver (h : l.view = some v) {op : MembershipOp} :
    (l.adeliver op).2.view = some ((change? v op).getD v) := by
  simp only [adeliver, h, apply]
  cases change? v op with
  | none => exact h
  | some w => rfl

theorem view_adeliverAll (h : l.view = some v) : (l.adeliverAll ys).2.view = some (v.after ys) := by
  induction ys generalizing l v with
  | nil => exact h
  | cons op ys ih => exact ih (view_adeliver h)

/-- Without a view, operations wait. -/
theorem adeliverAll_waits (h : l.view = none) :
    l.adeliverAll ys = ({}, { l with waiting := l.waiting ++ ys }) := by
  induction ys generalizing l with
  | nil => simp [adeliverAll]
  | cons op ys ih =>
    have hrest := ih (l := { l with waiting := l.waiting ++ [op] }) h
    simp only [adeliverAll, adeliver_waits h, hrest, List.append_assoc, List.singleton_append]
    rfl

/-- A transfer covers nothing if the operation that adds the joiner does not wait. -/
theorem covered_eq_zero (h : .add p ∉ ys) : covered [p] ys = 0 := by
  have hidx : ys.idxOf? (.add p) = none := List.idxOf?_eq_none_iff.mpr h
  simp [covered, hidx]

/-- The transfer that a sponsor puts out for the process that an operation adds. -/
theorem transfer_of_adeliver (h : l.view = some v)
    (ht : (p, t) ∈ (l.adeliver (.add p)).1.transfers) :
    p ∉ v.members ∧ t = ⟨v.id + 1, v.members ++ [p], [p]⟩ := by
  by_cases hin : p ∈ v.members
  · have hnone : change? v (.add p) = none := if_pos hin
    simp only [adeliver, h, apply, hnone] at ht
    cases ht
  · have hsome : change? v (.add p) = some ⟨v.id + 1, v.members ++ [p]⟩ := if_neg hin
    simp only [adeliver, h, apply, hsome, announce] at ht
    split at ht
    · obtain ⟨-, ht⟩ := Prod.mk.inj (List.mem_singleton.mp ht)
      exact ⟨hin, ht⟩
    · cases ht

/-- A joiner that does not wait with its own addition applies all that waits to the transferred
view. -/
theorem deliverState_early (hv : l.view = none) (hw : .add p ∉ l.waiting)
    (hn : t.members.Nodup) (hadded : t.added = [p]) : ∃ r, l.deliverState t = .ok r ∧
      r.2.view = some ((⟨t.viewId, t.members⟩ : View).after l.waiting) := by
  have hadopt : l.adopt ⟨t.viewId, t.members⟩ =
      .ok ({ directives := [.joinList t.members], newViews := [⟨t.viewId, t.members⟩] },
        { l with view := some ⟨t.viewId, t.members⟩ }) := by
    simp only [adopt, Proc.firstRepeated?_eq_none.mpr hn]
  have hdrop : l.waiting.drop (covered t.added l.waiting) = l.waiting := by
    rw [hadded, covered_eq_zero hw, List.drop_zero]
  simp only [deliverState, hv, hadopt, hdrop]
  exact ⟨_, rfl, view_adeliverAll rfl⟩

end MembershipLayer

namespace MembershipGroup
open MembershipLayer (change?)
open View (agreed)

variable {initial : List Proc} {ops before rest : List MembershipOp} {p q : Proc}
  {t : StateTransfer} {v : View} {sponsor : MembershipLayer} {j n : Nat}

/-- The joiner `p` is fed the first `j` operations, then takes up the transfer, and is then fed on
up to the `n`-th operation. -/
def joinEarly (initial : List Proc) (ops : List MembershipOp) (p : Proc) (t : StateTransfer)
    (j n : Nat) : Except MembershipError MembershipLayer :=
  (((opening initial p).2.adeliverAll (ops.take j)).2.deliverState t).map fun r =>
    (r.2.adeliverAll ((ops.take n).drop j)).2

/-- The joiner ends with what all operations make of the transferred view. -/
theorem view_joinEarly (hp : p ∉ initial) (hj : j ≤ n) (hnew : .add p ∉ ops.take j)
    (hn : v.members.Nodup) : ∃ l, joinEarly initial ops p ⟨v.id, v.members, [p]⟩ j n = .ok l ∧
      l.view = some (v.after (ops.take n)) := by
  have hopening : (opening initial p).2 = { here := p } := by rw [opening_of_not_mem hp]
  have hfed : ((opening initial p).2.adeliverAll (ops.take j)).2 =
      { here := p, waiting := ops.take j } := by
    rw [hopening, MembershipLayer.adeliverAll_waits rfl]
    rfl
  obtain ⟨r, hr, hview⟩ := MembershipLayer.deliverState_early
    (l := { here := p, waiting := ops.take j }) (t := ⟨v.id, v.members, [p]⟩) rfl hnew hn rfl
  have htaken : ops.take n = ops.take j ++ (ops.take n).drop j := by
    have hprefix : (ops.take n).take j = ops.take j := by rw [List.take_take, Nat.min_eq_left hj]
    rw [← hprefix, List.take_append_drop]
  refine ⟨(r.2.adeliverAll ((ops.take n).drop j)).2, ?_, ?_⟩
  · rw [joinEarly, hfed, hr]
    rfl
  · rw [MembershipLayer.view_adeliverAll hview, htaken, View.after_append, ← htaken]

/-- A transfer that comes before the joiner is fed its own addition: it ends with the view of the
others exactly if no operation that the transfer reflects changes the transferred view again. -/
theorem early_transfer_agrees_iff (hn : initial.Nodup) (hp : p ∉ initial) (hq : q ∈ initial)
    (hops : ops = before ++ .add p :: rest) (honce : ops.count (.add p) = 1)
    (hsponsor : sponsor.view = some (agreed initial before))
    (ht : (p, t) ∈ (sponsor.adeliver (.add p)).1.transfers)
    (hj : j ≤ before.length) (hk : before.length < n) :
    ∃ l, joinEarly initial ops p t j n = .ok l ∧
      (l.view = ((opening initial q).2.adeliverAll (ops.take n)).2.view ↔
        ∀ op ∈ before, change? ⟨t.viewId, t.members⟩ op = none) := by
  obtain ⟨hout, rfl⟩ := MembershipLayer.transfer_of_adeliver hsponsor ht
  let first : View := ⟨0, initial⟩
  let v : View := ⟨(agreed initial before).id + 1, (agreed initial before).members ++ [p]⟩
  have hchange : change? (agreed initial before) (.add p) = some v := if_neg hout
  have hv : v = first.after (before ++ [.add p]) := (View.agreed_of_change hchange).symm
  have hbefore : MembershipOp.add p ∉ before := by
    have hcount := honce
    rw [hops, List.count_append, List.count_cons_self] at hcount
    exact List.count_eq_zero.mp (by omega)
  have hnew : MembershipOp.add p ∉ ops.take j := by
    rw [hops, List.take_append_of_le_length hj]
    exact fun hmem => hbefore (List.mem_of_mem_take hmem)
  obtain ⟨l, hl, hview⟩ := view_joinEarly hp (show j ≤ n by omega) hnew
    (View.nodup_of_change hchange (View.nodup_agreed hn))
  have hmember : (opening initial q).2.view = some first := by
    rw [opening_of_mem hn hq]
  have htaken : ops.take n = (before ++ [.add p]) ++ rest.take (n - before.length - 1) := by
    have hlength : (before ++ [MembershipOp.add p]).length ≤ n := by
      rw [List.length_append, List.length_singleton]
      exact hk
    rw [hops, ← List.singleton_append, ← List.append_assoc, List.take_append,
      List.take_of_length_le hlength, List.length_append, List.length_singleton, Nat.sub_sub]
  refine ⟨l, hl, ?_⟩
  rw [hview, MembershipLayer.view_adeliverAll hmember, htaken, View.after_append (v := first),
    ← hv, Option.some_inj]
  have hagain : v.after (before ++ [.add p] ++ rest.take (n - before.length - 1)) =
      v.after (rest.take (n - before.length - 1)) ↔ v.Absorbs (before ++ [.add p]) := by
    rw [hv]
    exact View.again_eq_iff hn
  rw [hagain]
  constructor
  · intro habsorbs op hop
    exact habsorbs op (List.mem_append_left _ hop)
  · intro habsorbs op hop
    rcases List.mem_append.mp hop with hop | hop
    · exact habsorbs op hop
    · have hin : p ∈ v.members := List.mem_append_right _ List.mem_cons_self
      rw [List.mem_singleton.mp hop]
      exact if_pos hin

/-- The transfer comes after the first of two additions, which both still hold. -/
theorem early_addition_agrees : let a : Proc := ⟨"a", 1, 0⟩
    let b : Proc := ⟨"b", 1, 0⟩
    let c : Proc := ⟨"c", 1, 0⟩
    let sponsor : MembershipLayer := { here := a, view := some ⟨1, [a, b]⟩ }
    let t : StateTransfer := ⟨2, [a, b, c], [c]⟩
    (c, t) ∈ (sponsor.adeliver (.add c)).1.transfers ∧
      ∃ l, joinEarly [a] (handover a b c) c t 1 3 = .ok l ∧
        l.view = ((opening [a] a).2.adeliverAll ((handover a b c).take 3)).2.view := by
  intro a b c sponsor t
  have ht : (c, t) ∈ (sponsor.adeliver (.add c)).1.transfers := by decide
  obtain ⟨l, hl, hview⟩ := @early_transfer_agrees_iff [a] (handover a b c) [.add b]
    [.remove a] c a t sponsor 1 3 (by decide) (by decide) (by decide) rfl (by decide) (by decide) ht
    (by decide) (by decide)
  exact ⟨ht, l, hl, hview.mpr (by decide)⟩

/-- A process joins and leaves before the joiner is added. The transfer comes to the joiner after it
was fed the first addition: it applies both operations again, and its view is numbered otherwise. -/
theorem early_transfer_diverges : let a : Proc := ⟨"a", 1, 0⟩
    let b : Proc := ⟨"b", 1, 0⟩
    let c : Proc := ⟨"c", 1, 0⟩
    let ops : List MembershipOp := [.add b, .remove b, .add c]
    let t : StateTransfer := ⟨3, [a, c], [c]⟩
    let member := (opening [a] a).2
    (c, t) ∈ ((member.adeliverAll [.add b, .remove b]).2.adeliver (.add c)).1.transfers ∧
      (member.adeliverAll ops).2.view = some ⟨3, [a, c]⟩ ∧
      (joinEarly [a] ops c t 1 3).toOption.bind (·.view) = some ⟨5, [a, c]⟩ := by
  decide

end MembershipGroup

end Multicast
