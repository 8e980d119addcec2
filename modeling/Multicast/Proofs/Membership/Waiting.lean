import Multicast.Proofs.Membership.EarlyTransfer

/-! What becomes of the agreed operations that a layer is fed before it has a view. A state transfer
takes them up. A member list does not: what waits when the layer takes one up waits for good. -/
namespace Multicast

/-- What a process asks of its membership layer. -/
inductive MembershipCall where
  | init (members : List Proc)
  | adeliver (op : MembershipOp)
  | join (p : Proc)
  | remove (p : Proc)
  | transfer (t : StateTransfer)
  deriving DecidableEq, Repr

namespace MembershipCall

variable {c : MembershipCall} {cs ds : List MembershipCall}

/-- The operation that a call feeds to the layer. -/
def op? : MembershipCall → Option MembershipOp
  | adeliver op => some op
  | _ => none

/-- The operations that calls feed to the layer, in order. -/
def fed (cs : List MembershipCall) : List MembershipOp := cs.filterMap op?

/-- The view that a call brings. An empty member list brings none. -/
def view? : MembershipCall → Option View
  | init members => if members = [] then none else some ⟨0, members⟩
  | transfer t => some ⟨t.viewId, t.members⟩
  | _ => none

/-- What has come to the layer, and is not yet reflected by the view that the call brings. -/
def uncovered (ops : List MembershipOp) : MembershipCall → List MembershipOp
  | transfer t => ops.drop (MembershipLayer.covered t.added ops)
  | _ => ops

/-- The operations that the layer goes on to apply to the view that the call brings. -/
def replayed (ops : List MembershipOp) : MembershipCall → List MembershipOp
  | transfer t => ops.drop (MembershipLayer.covered t.added ops)
  | _ => []

/-- The operations that are left waiting when the layer takes up the view that the call brings. -/
def left (ops : List MembershipOp) : MembershipCall → List MembershipOp
  | transfer _ => []
  | _ => ops

/-- What the process `here` puts out when it takes up the view `v` that the call brings. -/
def arrival (here : Proc) (v : View) : MembershipCall → MembershipOutput
  | transfer t => {
      transfers := (t.added.filter (· ≠ here)).map fun p => (p, t)
      directives := [.joinList v.members]
      newViews := [v] }
  | _ => { directives := [.joinList v.members], newViews := [v] }

theorem fed_append : fed (cs ++ ds) = fed cs ++ fed ds := List.filterMap_append

theorem fed_snoc_none (h : c.op? = none) : fed (cs ++ [c]) = fed cs := by
  have hnone : fed [c] = [] := List.filterMap_cons_none h
  rw [fed_append, hnone, List.append_nil]

theorem op?_of_view? {v : View} (h : c.view? = some v) : c.op? = none := by
  cases c with
  | adeliver op => cases h
  | init | join | remove | transfer => rfl

end MembershipCall

namespace MembershipLayer
open MembershipCall (fed)

variable {here : Proc} {l l' : MembershipLayer} {c : MembershipCall} {v : View}
  {op : MembershipOp} {ops xs ys : List MembershipOp} {calls earlier : List MembershipCall}

def call (l : MembershipLayer) :
    MembershipCall → Except MembershipError (MembershipOutput × MembershipLayer)
  | .init members => l.init members
  | .adeliver op => .ok (l.adeliver op)
  | .join p => .ok (l.join p, l)
  | .remove p => .ok (l.remove p, l)
  | .transfer t => l.deliverState t

/-- The layer after a call. A call that is refused leaves it as it is. -/
def after (l : MembershipLayer) (c : MembershipCall) : MembershipLayer :=
  match l.call c with
  | .ok r => r.2
  | .error _ => l

/-- The layer of the process `here` after some calls, one after another. -/
def run (here : Proc) (calls : List MembershipCall) : MembershipLayer :=
  calls.foldl after { here }

theorem run_snoc : run here (calls ++ [c]) = (run here calls).after c := by
  rw [run, List.foldl_append]
  rfl

theorem adeliverAll_append :
    (l.adeliverAll (xs ++ ys)).2 = ((l.adeliverAll xs).2.adeliverAll ys).2 := by
  induction xs generalizing l with
  | nil => rfl
  | cons op xs ih => exact ih

/-- With a view, operations that wait go on waiting. -/
theorem waiting_adeliver (hv : l.view.isSome = true) : (l.adeliver op).2.waiting = l.waiting := by
  obtain ⟨v, hv⟩ := Option.isSome_iff_exists.mp hv
  simp only [adeliver, hv, apply]
  cases change? v op <;> rfl

theorem waiting_adeliverAll (hv : l.view.isSome = true) :
    (l.adeliverAll ops).2.waiting = l.waiting := by
  induction ops generalizing l with
  | nil => rfl
  | cons op ops ih => exact (ih (isSome_adeliver hv)).trans (waiting_adeliver hv)

/-! ### One call -/

theorem append_empty (o : MembershipOutput) : o ++ ({} : MembershipOutput) = o := by
  change o.append {} = o
  simp [MembershipOutput.append]

/-- A layer without a view takes up the view that a call brings. -/
theorem call_of_view? (hv : l.view = none) (hc : c.view? = some v) (hn : v.members.Nodup) :
    let r := { l with view := some v, waiting := c.left l.waiting }.adeliverAll
      (c.replayed l.waiting)
    l.call c = .ok (c.arrival l.here v ++ r.1, r.2) := by
  have hadopt : l.adopt v =
      .ok ({ directives := [.joinList v.members], newViews := [v] },
        { l with view := some v }) := by
    simp only [adopt, Proc.firstRepeated?_eq_none.mpr hn]
  cases c with
  | adeliver | join | remove => cases hc
  | init members =>
    simp only [MembershipCall.view?] at hc
    split at hc
    · cases hc
    · rename_i hmembers
      obtain rfl := Option.some.inj hc
      simp only [call, init, hv, hmembers, hadopt, MembershipCall.arrival, MembershipCall.replayed,
        MembershipCall.left, adeliverAll, append_empty]
      rfl
  | transfer t =>
    obtain rfl := Option.some.inj hc
    simp only [call, deliverState, hv, hadopt, MembershipCall.arrival, MembershipCall.replayed,
      MembershipCall.left]
    rfl

/-- A view in which a member is repeated is refused. -/
theorem call_error_of_view? (hv : l.view = none) (hc : c.view? = some v)
    (hn : ¬ v.members.Nodup) : ∃ e, l.call c = .error e := by
  obtain ⟨p, hp⟩ := Option.ne_none_iff_exists'.mp (mt Proc.firstRepeated?_eq_none.mp hn)
  have hadopt : l.adopt v = .error (.duplicateMember p) := by simp only [adopt, hp]
  refine ⟨.duplicateMember p, ?_⟩
  cases c with
  | adeliver | join | remove => cases hc
  | init members =>
    simp only [MembershipCall.view?] at hc
    split at hc
    · cases hc
    · rename_i hmembers
      obtain rfl := Option.some.inj hc
      simp [call, init, hv, hmembers, hadopt]
  | transfer t =>
    obtain rfl := Option.some.inj hc
    simp [call, deliverState, hv, hadopt]

/-- What a call makes of a layer: it feeds it an operation, gives it its first view, or changes
nothing. -/
inductive Effect (l : MembershipLayer) (c : MembershipCall) : MembershipLayer → Prop
  | fed (op : MembershipOp) (hop : c = .adeliver op) : Effect l c (l.adeliver op).2
  | opened (v : View) (hv : l.view = none) (hc : c.view? = some v) (hn : v.members.Nodup) :
    Effect l c ({ l with view := some v, waiting := c.left l.waiting }.adeliverAll
      (c.replayed l.waiting)).2
  | same (hop : c.op? = none) : Effect l c l

theorem after_cases (l : MembershipLayer) (c : MembershipCall) : l.Effect c (l.after c) := by
  have hstays (hop : c.op? = none) (h : l.after c = l) : l.Effect c (l.after c) := by
    rw [h]
    exact .same hop
  have hopens (v : View) (hv : l.view = none) (hc : c.view? = some v) : l.Effect c (l.after c) := by
    have hop := MembershipCall.op?_of_view? hc
    by_cases hn : v.members.Nodup
    · have hafter := Effect.opened v hv hc hn
      have hcall := call_of_view? hv hc hn
      rwa [after, hcall]
    · obtain ⟨e, he⟩ := call_error_of_view? hv hc hn
      exact hstays hop (by simp only [after, he])
  cases c with
  | adeliver op => exact .fed op rfl
  | join p => exact .same rfl
  | remove p => exact .same rfl
  | init members =>
    cases hv : l.view with
    | some v => exact hstays rfl (by simp [after, call, init, hv])
    | none =>
      by_cases hmembers : members = []
      · exact hstays rfl (by simp [after, call, init, hv, hmembers])
      · exact hopens ⟨0, members⟩ hv (if_neg hmembers)
  | transfer t =>
    cases hv : l.view with
    | some v => exact hstays rfl (by simp [after, call, deliverState, hv])
    | none => exact hopens ⟨t.viewId, t.members⟩ hv rfl

/-! ### Runs -/

/-- How a layer stands after some calls: all that it was fed still waits, or it has taken up a view
and applied to it what the call that brought it let it replay, and all that it was fed since. -/
inductive Standing (here : Proc) (calls : List MembershipCall) (l : MembershipLayer) : Prop
  | waits (h : l = { here, waiting := fed calls })
  | since (before after : List MembershipCall) (c : MembershipCall) (v : View)
    (split : calls = before ++ c :: after)
    (start : run here before = { here, waiting := fed before })
    (brings : c.view? = some v) (distinct : v.members.Nodup)
    (applied : l = (adeliverAll { here, view := some v, waiting := c.left (fed before) }
      (c.replayed (fed before) ++ fed after)).2)

theorem Standing.after (h : Standing here calls (run here calls)) :
    Standing here (calls ++ [c]) (run here (calls ++ [c])) := by
  rw [run_snoc]
  cases h with
  | waits hl =>
    have hstep := after_cases (run here calls) c
    generalize (run here calls).after c = l' at hstep ⊢
    rw [hl] at hstep
    cases hstep with
    | fed op hop =>
      subst hop
      apply Standing.waits
      rw [MembershipCall.fed_append]
      rfl
    | opened v hv hc hn =>
      refine .since calls [] c v rfl hl hc hn ?_
      rw [show fed [] = [] from rfl, List.append_nil]
    | same hop =>
      apply Standing.waits
      rw [MembershipCall.fed_snoc_none hop]
  | since before rest d v hcalls hstart hd hn happlied =>
    have hview : (run here calls).view.isSome = true := by
      rw [happlied]
      exact isSome_adeliverAll rfl
    have hsplit : calls ++ [c] = before ++ d :: (rest ++ [c]) := by
      rw [hcalls, List.append_assoc, List.cons_append]
    refine .since before (rest ++ [c]) d v hsplit hstart hd hn ?_
    have hstep := after_cases (run here calls) c
    generalize (run here calls).after c = l' at hstep ⊢
    cases hstep with
    | fed op hop =>
      subst hop
      rw [MembershipCall.fed_append, ← List.append_assoc, adeliverAll_append, ← happlied]
      rfl
    | opened w hnone =>
      rw [hnone] at hview
      cases hview
    | same hop => rw [MembershipCall.fed_snoc_none hop, happlied]

theorem standing_run : Standing here calls (run here calls) := by
  induction calls using List.reverseRecOn with
  | nil => exact .waits rfl
  | append_singleton calls c ih => exact ih.after

/-- Nothing waits, and the layer is where a layer is that was given the first view at once, and then
was fed in order what this view did not reflect and what came since. The call that brought the view
also puts out what those operations put out that had come before it. -/
structure Settled (here : Proc) (calls : List MembershipCall) : Prop where
  empty : (run here calls).waiting = []
  account : ∃ before c after v o l, calls = before ++ c :: after ∧
    (run here before).view = none ∧ c.view? = some v ∧
    adeliverAll { here, view := some v } (c.uncovered (fed before)) = (o, l) ∧
    (run here before).call c = .ok (c.arrival here v ++ o, l) ∧
    run here calls = (l.adeliverAll (fed after)).2

/-- A layer that took up a view by a transfer, or had been fed nothing, has nothing left to do. -/
theorem settled_of_left {before rest : List MembershipCall} (hcalls : calls = before ++ c :: rest)
    (hstart : run here before = { here, waiting := fed before }) (hc : c.view? = some v)
    (hn : v.members.Nodup) (hleft : c.left (fed before) = [])
    (happlied : run here calls =
      (adeliverAll { here, view := some v, waiting := c.left (fed before) }
        (c.replayed (fed before) ++ fed rest)).2) : Settled here calls := by
  have hreplayed : c.replayed (fed before) = c.uncovered (fed before) := by
    cases c with
    | transfer t => rfl
    | init | adeliver | join | remove => exact hleft.symm
  have hnone : (run here before).view = none := by rw [hstart]
  have hcall := call_of_view? hnone hc hn
  rw [hstart] at hcall
  dsimp only at hcall
  rw [hleft, hreplayed] at hcall happlied
  rw [adeliverAll_append] at happlied
  refine ⟨?_, before, c, rest, v, _, _, hcalls, hnone, hc, rfl, ?_, happlied⟩
  · rw [happlied, waiting_adeliverAll (isSome_adeliverAll rfl), waiting_adeliverAll rfl]
  · rw [hstart]
    exact hcall

/-- Whatever is asked of a layer: all that it was fed before it had a view is applied in order, or
covered by the state transfer that brought the view, exactly if it takes up no member list when it
has been fed anything. -/
theorem none_stranded_iff (here : Proc) (calls : List MembershipCall) :
    (∀ earlier, earlier <+: calls → (run here earlier).view.isSome = true → Settled here earlier) ↔
      ∀ earlier members, earlier ++ [.init members] <+: calls → (run here earlier).view = none →
        members ≠ [] → members.Nodup → fed earlier = [] := by
  constructor
  · intro hsettled earlier members hprefix hnone hmembers hn
    have hbrings : (MembershipCall.init members).view? = some ⟨0, members⟩ := if_neg hmembers
    have hwaits : (run here earlier).waiting = fed earlier := by
      have hstanding : Standing here earlier (run here earlier) := standing_run
      cases hstanding with
      | waits h => rw [h]
      | since before rest c v _ _ _ _ happlied =>
        have hview : (run here earlier).view.isSome = true := by
          rw [happlied]
          exact isSome_adeliverAll rfl
        rw [hnone] at hview
        cases hview
    have hnext : run here (earlier ++ [.init members]) =
        { run here earlier with view := some ⟨0, members⟩ } := by
      rw [run_snoc, after, call_of_view? hnone hbrings hn]
      rfl
    have hempty := (hsettled _ hprefix (by rw [hnext]; rfl)).empty
    rwa [hnext, hwaits] at hempty
  · intro hlists earlier hprefix hview
    have hstanding : Standing here earlier (run here earlier) := standing_run
    cases hstanding with
    | waits h =>
      rw [h] at hview
      cases hview
    | since before rest c v hcalls hstart hc hn happlied =>
      refine settled_of_left hcalls hstart hc hn ?_ happlied
      cases c with
      | adeliver | join | remove => cases hc
      | transfer t => rfl
      | init members =>
        have hmembers : members ≠ [] := by
          rintro rfl
          cases hc
        have hhead : before ++ [.init members] <+: calls := by
          refine List.IsPrefix.trans ⟨rest, ?_⟩ hprefix
          rw [hcalls, List.append_assoc]
          rfl
        have hnone : (run here before).view = none := by rw [hstart]
        obtain rfl : (⟨0, members⟩ : View) = v :=
          Option.some.inj ((if_neg hmembers).symm.trans hc)
        exact hlists before members hhead hnone hmembers hn

/-- An operation comes before the member list, and waits for good: a transfer is ignored once there
is a view. -/
theorem init_strands : ¬ ∀ (here : Proc) (calls : List MembershipCall),
    (run here calls).view.isSome = true → (run here calls).waiting = [] := by
  intro h
  let a : Proc := ⟨"a", 1, 0⟩
  let b : Proc := ⟨"b", 1, 0⟩
  let c : Proc := ⟨"c", 1, 0⟩
  have hempty := h b [.adeliver (.add c), .init [a, b], .transfer ⟨1, [a, b, c], [c]⟩] (by decide)
  exact absurd hempty (by decide)

end MembershipLayer

end Multicast
