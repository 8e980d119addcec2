import Multicast.Proofs.Membership.EarlyTransfer

/-! Who sends the state of the group to those that join. Every process decides on its own whether it
is up to it, some only when they catch up; all together they send each joiner one transfer. -/
namespace Multicast
open MembershipLayer (change?)

/-- A transfer that a process puts out, and the process that it is for. -/
structure Introduction where
  sponsor : Proc
  joiner : Proc
  transfer : StateTransfer
  deriving DecidableEq, Repr

namespace View

variable {v w : View} {xs ys ops : List MembershipOp} {op : MembershipOp} {p q : Proc}
  {e : Introduction}

/-- What an operation on `v` calls for: if it takes in a process, the first member sends this
process the view that comes next. -/
def introduction (v : View) : MembershipOp → List Introduction
  | .add p =>
    match change? v (.add p) with
    | some next => v.sponsor?.toList.map (⟨·, p, ⟨next.id, next.members, [p]⟩⟩)
    | none => []
  | .remove _ => []

/-- What operations on `v` call for, one after another. -/
def introductions (v : View) : List MembershipOp → List Introduction
  | [] => []
  | op :: ops => v.introduction op ++ ((change? v op).getD v).introductions ops

theorem introductions_append :
    v.introductions (xs ++ ys) = v.introductions xs ++ (v.after xs).introductions ys := by
  induction xs generalizing v with
  | nil => rfl
  | cons op xs ih =>
    rw [List.cons_append, introductions, introductions, ih, after_cons, List.append_assoc]

theorem introductions_singleton : v.introductions [op] = v.introduction op := List.append_nil _

theorem introductions_append_singleton :
    v.introductions (xs ++ [op]) = v.introductions xs ++ (v.after xs).introduction op := by
  rw [introductions_append, introductions_singleton]

theorem mem_introduction : e ∈ v.introduction op ↔ ∃ next, op = .add e.joiner ∧
    change? v op = some next ∧ v.sponsor? = some e.sponsor ∧
      e.transfer = ⟨next.id, next.members, [e.joiner]⟩ := by
  obtain ⟨s, p, t⟩ := e
  cases op with
  | remove q => simp [introduction]
  | add q =>
    simp only [introduction]
    cases h : change? v (.add q) with
    | none => simp
    | some next =>
      simp only [List.mem_map, Option.mem_toList, Introduction.mk.injEq, MembershipOp.add.injEq]
      constructor
      · rintro ⟨s, hs, rfl, rfl, rfl⟩
        exact ⟨next, rfl, rfl, hs, rfl⟩
      · rintro ⟨next', rfl, hnext, hs, rfl⟩
        obtain rfl := Option.some.inj hnext
        exact ⟨s, hs, rfl, rfl, rfl⟩

/-- Each of them is called for by one operation, after some others. -/
theorem mem_introductions : e ∈ v.introductions ops ↔
    ∃ xs op, xs ++ [op] <+: ops ∧ e ∈ (v.after xs).introduction op := by
  induction ops using List.reverseRecOn with
  | nil => simp [introductions]
  | append_singleton ops op ih =>
    rw [introductions_append_singleton, List.mem_append, ih]
    constructor
    · rintro (⟨xs, op', hxs, he⟩ | he)
      · exact ⟨xs, op', hxs.trans (List.prefix_append _ _), he⟩
      · exact ⟨ops, op, List.prefix_refl _, he⟩
    · rintro ⟨xs, op', hxs, he⟩
      rcases List.prefix_concat_iff.mp hxs with heq | hxs
      · obtain ⟨rfl, hop⟩ := List.append_inj' heq rfl
        obtain rfl : op' = op := by simpa using hop
        exact Or.inr he
      · exact Or.inl ⟨xs, op', hxs, he⟩

theorem introduction_add {next : View} {s : Proc} (hs : v.sponsor? = some s)
    (h : change? v (.add p) = some next) :
    v.introduction (.add p) = [⟨s, p, ⟨next.id, next.members, [p]⟩⟩] := by
  simp only [introduction, h, hs, Option.toList_some, List.map_singleton]

/-- Only a member puts out what an operation calls for. -/
theorem mem_members_of_introduction (h : e ∈ v.introduction op) : e.sponsor ∈ v.members := by
  obtain ⟨_, -, -, hsponsor, -⟩ := mem_introduction.mp h
  exact List.mem_of_mem_head? hsponsor

/-- What they call for carries the views that they make. -/
theorem id_of_introductions (h : e ∈ v.introductions ops) :
    v.id < e.transfer.viewId ∧ e.transfer.viewId ≤ (v.after ops).id := by
  obtain ⟨xs, op, ⟨ys, rfl⟩, he⟩ := mem_introductions.mp h
  obtain ⟨next, -, hchange, -, ht⟩ := mem_introduction.mp he
  have hnext : next.id = (v.after xs).id + 1 := next_of_change hchange
  have hlast : v.after (xs ++ [op] ++ ys) = next.after ys := by
    rw [after_append, after_append, after_cons, hchange]
    rfl
  rw [ht, hlast]
  refine ⟨?_, id_le_after⟩
  change v.id < next.id
  rw [hnext]
  exact Nat.lt_succ_of_le id_le_after

/-- The number of a view tells what the operation that makes it calls for. -/
theorem introductions_of_id {next : View} (h : xs ++ [op] <+: ops)
    (hchange : change? (v.after xs) op = some next) :
    (v.introductions ops).filter (·.transfer.viewId = next.id) = (v.after xs).introduction op := by
  obtain ⟨ys, rfl⟩ := h
  have hnext : next.id = (v.after xs).id + 1 := next_of_change hchange
  have hlast : v.after (xs ++ [op]) = next := by
    rw [after_append, after_cons, hchange]
    rfl
  have hearlier : (v.introductions xs).filter (·.transfer.viewId = next.id) = [] := by
    rw [List.filter_eq_nil_iff]
    intro e he
    rw [decide_eq_true_iff, hnext]
    exact Nat.ne_of_lt (Nat.lt_succ_of_le (id_of_introductions he).2)
  have hlater : (next.introductions ys).filter (·.transfer.viewId = next.id) = [] := by
    rw [List.filter_eq_nil_iff]
    intro e he
    rw [decide_eq_true_iff]
    exact Nat.ne_of_gt (id_of_introductions he).1
  have hown : ((v.after xs).introduction op).filter (·.transfer.viewId = next.id) =
      (v.after xs).introduction op := by
    rw [List.filter_eq_self]
    intro e he
    obtain ⟨w, -, hw, -, ht⟩ := mem_introduction.mp he
    obtain rfl := Option.some.inj (hchange.symm.trans hw)
    rw [ht, decide_eq_true_iff]
  rw [introductions_append, introductions_append_singleton, hlast, List.filter_append,
    List.filter_append, hearlier, hown, hlater, List.nil_append, List.append_nil]

/-- Who is no member is none before the operation that adds it. -/
theorem not_mem_after_of_new (hv : v.members.Nodup) (hp : p ∉ v.members) (hnew : .add p ∉ xs) :
    p ∉ (v.after xs).members := by
  induction xs generalizing v with
  | nil => exact hp
  | cons op xs ih =>
    obtain ⟨hop, hxs⟩ := not_or.mp (List.mem_cons.not.mp hnew)
    rw [after_cons]
    refine ih (nodup_change hv) ?_ hxs
    rw [mem_change hv]
    split
    · exact Ne.symm hop
    · exact hp

end View

namespace MembershipOutput

variable {o o' : MembershipOutput} {p : Proc}

/-- What `p` introduces to the group with an output. -/
def introductions (p : Proc) (o : MembershipOutput) : List Introduction :=
  o.transfers.map fun x => ⟨p, x.1, x.2⟩

theorem introductions_append :
    (o ++ o').introductions p = o.introductions p ++ o'.introductions p := List.map_append

theorem sponsor_of_mem {e : Introduction} (h : e ∈ o.introductions p) : e.sponsor = p := by
  obtain ⟨x, -, rfl⟩ := List.mem_map.mp h
  rfl

theorem map_introductions :
    (o.introductions p).map (fun e => (e.joiner, e.transfer)) = o.transfers := by
  rw [introductions, List.map_map]
  exact List.map_id _

end MembershipOutput

namespace MembershipLayer

variable {l : MembershipLayer} {v : View} {ops : List MembershipOp} {op : MembershipOp}

theorem here_adeliver : (l.adeliver op).2.here = l.here := by
  simp only [adeliver, apply]
  split
  · rfl
  · split <;> rfl

/-- A layer puts out its share of what an operation calls for. -/
theorem introductions_adeliver (h : l.view = some v) : (l.adeliver op).1.introductions l.here =
    (v.introduction op).filter (·.sponsor = l.here) := by
  cases op with
  | remove p =>
    simp only [adeliver, h, apply, View.introduction]
    cases change? v (.remove p) <;> rfl
  | add p =>
    simp only [adeliver, h, apply, View.introduction]
    cases hnext : change? v (.add p) with
    | none => rfl
    | some next =>
      cases hs : v.sponsor? with
      | none => simp [announce, hs, MembershipOutput.introductions]
      | some s =>
        by_cases hhere : s = l.here <;>
          simp [announce, hs, hhere, MembershipOutput.introductions]

theorem introductions_adeliverAll (h : l.view = some v) :
    (l.adeliverAll ops).1.introductions l.here =
      (v.introductions ops).filter (·.sponsor = l.here) := by
  induction ops generalizing l v with
  | nil => rfl
  | cons op ops ih =>
    have hview : (l.adeliver op).2.view = some ((change? v op).getD v) := view_adeliver h
    have hrest := ih hview
    rw [here_adeliver] at hrest
    rw [View.introductions, List.filter_append, ← introductions_adeliver h, ← hrest]
    exact MembershipOutput.introductions_append

end MembershipLayer

namespace MembershipGroup
open View (agreed)

variable {g : MembershipGroup} {initial : List Proc} {ops xs ys past : List MembershipOp}
  {start : Proc → Nat} {p q : Proc} {k : Nat} {a : Action} {actions : List Action}
  {r : MembershipOutput × MembershipLayer} {emitted : List Introduction} {e : Introduction}
  {t : StateTransfer}

/-- What the process that acts introduces by a step. -/
def emits (ops : List MembershipOp) (g : MembershipGroup) : Action → List Introduction
  | .feed p =>
    match ops[g.position p]? with
    | some op => ((g.layers p).adeliver op).1.introductions p
    | none => []
  | .transfer p t =>
    match (g.layers p).deliverState t with
    | .ok r => r.1.introductions p
    | .error _ => []

/-- What all processes introduce in a run, oldest first. -/
def emissions (ops : List MembershipOp) : MembershipGroup → List Action → List Introduction
  | _, [] => []
  | g, a :: actions => g.emits ops a ++ emissions ops (g.step ops a) actions

theorem transfers_opening : (opening initial p).1.transfers = [] := by
  simp only [opening, MembershipLayer.init, MembershipLayer.adopt]
  grind

/-- These are all transfers that are sent. -/
theorem sent_step : (g.step ops a).sent = g.sent ++ (g.emits ops a).map fun e =>
    (e.joiner, e.transfer) := by
  cases a with
  | feed p =>
    simp only [step, emits]
    split <;> simp [*, absorb, MembershipOutput.map_introductions]
  | transfer p t =>
    simp only [step, emits]
    split <;> simp [*, absorb, MembershipOutput.map_introductions]

theorem sent_run : (g.run ops actions).sent = g.sent ++ (emissions ops g actions).map fun e =>
    (e.joiner, e.transfer) := by
  induction actions generalizing g with
  | nil => simp [run, emissions]
  | cons a actions ih =>
    rw [emissions, List.map_append, ← List.append_assoc, ← sent_step]
    exact ih

/-- What the operations `xs` call on `p` to put out. -/
def share (initial : List Proc) (xs : List MembershipOp) (p : Proc) : List Introduction :=
  ((⟨0, initial⟩ : View).introductions xs).filter (·.sponsor = p)

/-- Who is a member of no view before the last owes nothing. -/
theorem share_eq_nil (h : ∀ zs op, zs ++ [op] <+: xs → p ∉ (agreed initial zs).members) :
    share initial xs p = [] := by
  rw [share, List.filter_eq_nil_iff]
  intro e he
  obtain ⟨zs, op, hzs, he⟩ := View.mem_introductions.mp he
  rw [decide_eq_true_iff]
  intro hsponsor
  exact h zs op hzs (hsponsor ▸ View.mem_members_of_introduction he)

theorem mem_share {next : View} {s : Proc} (hpast : past ++ [.add p] <+: ops)
    (hs : (agreed initial past).sponsor? = some s)
    (hchange : change? (agreed initial past) (.add p) = some next) :
    ⟨s, p, ⟨next.id, next.members, [p]⟩⟩ ∈ share initial ops s := by
  have hcalled := View.introduction_add hs hchange
  refine List.mem_filter.mpr ⟨View.mem_introductions.mpr ⟨past, .add p, hpast, ?_⟩,
    decide_eq_true rfl⟩
  exact (congrArg (_ ∈ ·) hcalled).mpr (List.mem_singleton_self _)

theorem share_append : share initial (xs ++ ys) p = share initial xs p ++
    ((agreed initial xs).introductions ys).filter (·.sponsor = p) := by
  rw [share, View.introductions_append, List.filter_append]
  rfl

/-- A process with a view has put out its share of what the operations behind it call for, any other
has put out nothing. -/
def Sponsored (initial : List Proc) (ops : List MembershipOp) (g : MembershipGroup)
    (emitted : List Introduction) (p : Proc) : Prop :=
  emitted.filter (·.sponsor = p) =
    if (g.layers p).view.isSome then share initial (ops.take (g.position p)) p else []

theorem sponsored_opened : Sponsored initial ops (opened initial start) [] p := by
  by_cases hp : p ∈ initial
  · have hposition : (opened initial start).position p = 0 := if_pos hp
    rw [Sponsored, hposition]
    split <;> rfl
  · have hlayer : (opened initial start).layers p = { here := p } :=
      congrArg Prod.snd (opening_of_not_mem hp)
    rw [Sponsored, hlayer]
    rfl

/-- What `p` puts out counts for no other process. -/
theorem Sponsored.absorb_of_ne (h : Sponsored initial ops g emitted q) (hq : q ≠ p) :
    Sponsored initial ops (g.absorb p k r) (emitted ++ r.1.introductions p) q := by
  have hothers : (r.1.introductions p).filter (·.sponsor = q) = [] := by
    rw [List.filter_eq_nil_iff]
    intro e he
    rw [MembershipOutput.sponsor_of_mem he, decide_eq_true_iff]
    exact hq.symm
  rw [Sponsored, List.filter_append, hothers, List.append_nil, layers_absorb_of_ne hq,
    position_absorb_of_ne hq]
  exact h

theorem Sponsored.absorb_self (h : Sponsored initial ops g emitted p)
    (hr : (if (g.layers p).view.isSome then share initial (ops.take (g.position p)) p else []) ++
      r.1.introductions p = if r.2.view.isSome then share initial (ops.take k) p else []) :
    Sponsored initial ops (g.absorb p k r) (emitted ++ r.1.introductions p) p := by
  have hown : (r.1.introductions p).filter (·.sponsor = p) = r.1.introductions p := by
    rw [List.filter_eq_self]
    intro e he
    exact decide_eq_true (MembershipOutput.sponsor_of_mem he)
  rw [Sponsored, List.filter_append, hown, h, layers_absorb_self, position_absorb_self]
  exact hr

theorem Sponsored.feed (hg : Agreeing initial ops start g)
    (h : ∀ q, Sponsored initial ops g emitted q) :
    Sponsored initial ops (g.step ops (.feed p)) (emitted ++ g.emits ops (.feed p)) q := by
  simp only [step, emits]
  cases hop : ops[g.position p]? with
  | none => simpa using h q
  | some op =>
    have htake : ops.take (g.position p + 1) = ops.take (g.position p) ++ [op] := by
      rw [List.take_add_one, hop, Option.toList_some]
    by_cases hq : q = p
    · subst hq
      refine (h q).absorb_self ?_
      -- A process that has a view applies the operation. One without keeps it, and owes nothing.
      rcases (hg.placed q).stands with hview | ⟨-, hview, -⟩
      · have hsome : ((g.layers q).adeliver op).2.view.isSome = true :=
          MembershipLayer.isSome_adeliver (by rw [hview]; rfl)
        have hout : ((g.layers q).adeliver op).1.introductions (g.layers q).here = _ :=
          MembershipLayer.introductions_adeliver hview
        rw [(hg.placed q).here] at hout
        rw [hview, Option.isSome_some, if_pos rfl, if_pos hsome, htake, share_append,
          View.introductions_singleton, hout]
      · rw [MembershipLayer.adeliver_waits hview, hview]
        rfl
    · exact (h q).absorb_of_ne hq

/-- Nothing that comes before its own addition calls on the joiner, so it owes no more than what it
puts out when it catches up. -/
theorem Sponsored.transfer (hg : Agreeing initial ops start g) (hn : initial.Nodup)
    (hone : ∀ p ∉ initial, ops.count (.add p) ≤ 1)
    (hstart : ∀ p ∉ initial, .add p ∈ ops → start p ≤ ops.idxOf (.add p))
    (ht : (p, t) ∈ g.sent) (hfed : p ∈ initial ∨ .add p ∈ ops.take (g.position p))
    (h : ∀ q, Sponsored initial ops g emitted q) :
    Sponsored initial ops (g.step ops (.transfer p t))
      (emitted ++ g.emits ops (.transfer p t)) q := by
  simp only [step, emits]
  rcases (hg.placed p).stands with hview | ⟨hp, hview, -, -⟩
  · have hsome : (g.layers p).view.isSome = true := by rw [hview]; rfl
    rw [MembershipLayer.deliverState_ignored hsome]
    by_cases hq : q = p
    · subst hq
      exact (h q).absorb_self (List.append_nil _)
    · exact (h q).absorb_of_ne hq
  · obtain ⟨zs, rest, o, hfresh, hwhole, hr, -, htransfers⟩ := hg.catches_up hn (hone p hp)
      (hstart p hp) hview ht (hfed.resolve_left hp)
    rw [hr]
    by_cases hq : q = p
    · subst hq
      -- What it was fed up to its addition calls on others, the rest is applied to the new view.
      let first := agreed initial (zs ++ [.add q])
      let l := { g.layers q with view := some first, waiting := [] }
      have hsome : (l.adeliverAll rest).2.view.isSome = true :=
        MembershipLayer.isSome_adeliverAll rfl
      have hnothing : share initial (zs ++ [.add q]) q = [] := by
        refine share_eq_nil fun ys op hys => View.not_mem_after_of_new hn hp fun hadd => ?_
        rcases List.prefix_concat_iff.mp hys with heq | hys
        · exact hfresh ((List.append_inj' heq rfl).1 ▸ hadd)
        · exact hfresh (hys.mem (List.mem_append_left _ hadd))
      have hout : (l.adeliverAll rest).1.introductions q =
          (first.introductions rest).filter (·.sponsor = q) := by
        have hhere : l.here = q := (hg.placed q).here
        rw [← hhere]
        exact MembershipLayer.introductions_adeliverAll rfl
      have hsame : o.introductions q = (l.adeliverAll rest).1.introductions q :=
        congrArg (List.map _) htransfers
      refine (h q).absorb_self ?_
      rw [hview, if_neg (by simp), if_pos hsome, hwhole, share_append, hnothing, hsame, hout]
    · exact (h q).absorb_of_ne hq

section Runs

variable (hn : initial.Nodup) (hone : ∀ p ∉ initial, ops.count (.add p) ≤ 1)
  (hstart : ∀ p ∉ initial, .add p ∈ ops → start p ≤ ops.idxOf (.add p))
include hn hone hstart

theorem Sponsored.step (hg : Agreeing initial ops start g) (ha : Permitted initial ops g a)
    (h : ∀ q, Sponsored initial ops g emitted q) :
    Sponsored initial ops (g.step ops a) (emitted ++ g.emits ops a) q := by
  cases a with
  | feed p => exact Sponsored.feed hg h
  | transfer p t => exact Sponsored.transfer hg hn hone hstart ha.1 ha.2 h

theorem sponsored_run (hg : Agreeing initial ops start g) (hrun : Proper initial ops g actions)
    (h : ∀ q, Sponsored initial ops g emitted q) :
    Sponsored initial ops (g.run ops actions) (emitted ++ emissions ops g actions) q := by
  induction actions generalizing g emitted with
  | nil => simpa [run, emissions] using h q
  | cons a actions ih =>
    rw [emissions, ← List.append_assoc]
    exact ih (hg.step hn hone hstart hrun.1) hrun.2 fun q =>
      Sponsored.step hn hone hstart hg hrun.1 h

/-- At the end, each process that has joined has put out its share of all operations. -/
theorem share_of_done (hrun : Proper initial ops (opened initial start) actions)
    (hdone : ((opened initial start).run ops actions).position p = ops.length)
    (hview : (((opened initial start).run ops actions).layers p).view.isSome = true) :
    (emissions ops (opened initial start) actions).filter (·.sponsor = p) =
      share initial ops p := by
  have hsponsored := sponsored_run (q := p) hn hone hstart (agreeing_opened hn) hrun
    fun _ => sponsored_opened
  rw [Sponsored, if_pos hview, hdone, List.take_length, List.nil_append] at hsponsored
  exact hsponsored

/-- Everybody that is ever a member has a view at the end: whoever joined was sent one by a sponsor,
that was a member before. -/
theorem members_joined (hrun : Proper initial ops (opened initial start) actions)
    (hpeopled : ∀ past p, past ++ [.add p] <+: ops → (agreed initial past).members ≠ [])
    (hdone : ∀ p, p ∈ initial ∨ .add p ∈ ops →
      ((opened initial start).run ops actions).position p = ops.length)
    (hreceived : ∀ x ∈ ((opened initial start).run ops actions).sent, x.1 ∉ initial →
      .transfer x.1 x.2 ∈ actions)
    (hpast : past <+: ops) (hp : p ∈ (agreed initial past).members) :
    (p ∈ initial ∨ .add p ∈ ops) ∧
      (((opened initial start).run ops actions).layers p).view.isSome = true := by
  have hinitial : ∀ p ∈ initial,
      (((opened initial start).run ops actions).layers p).view.isSome = true := by
    intro p hp
    apply isSome_run
    change (opening initial p).2.view.isSome = true
    rw [opening_of_mem hn hp]
    rfl
  induction past using List.reverseRecOn generalizing p with
  | nil => exact ⟨.inl hp, hinitial p hp⟩
  | append_singleton past op ih =>
    have hbefore : past <+: ops := (List.prefix_append _ _).trans hpast
    by_cases hmember : p ∈ (agreed initial past).members
    · exact ih hbefore hmember
    · have hop : op = .add p := by
        rw [View.agreed_append_singleton, View.mem_change (View.nodup_agreed hn)] at hp
        split at hp
        · exact hp
        · exact (hmember hp).elim
      subst hop
      have hadd : .add p ∈ ops := hpast.mem (by simp)
      refine ⟨.inr hadd, ?_⟩
      by_cases hin : p ∈ initial
      · exact hinitial p hin
      · obtain ⟨s, hs⟩ : ∃ s, (agreed initial past).sponsor? = some s :=
          Option.isSome_iff_exists.mp (List.isSome_head?.mpr (hpeopled past p hpast))
        have hchange : change? (agreed initial past) (.add p) =
            some ⟨(agreed initial past).id + 1, (agreed initial past).members ++ [p]⟩ :=
          if_neg hmember
        obtain ⟨hknown, hsome⟩ := ih hbefore (List.mem_of_mem_head? hs)
        have hemitted := mem_share hpast hs hchange
        rw [← share_of_done hn hone hstart hrun (hdone s hknown) hsome] at hemitted
        have hsent : ∃ t, (p, t) ∈ ((opened initial start).run ops actions).sent := by
          rw [sent_run]
          exact ⟨_, List.mem_append_right _
            (List.mem_map.mpr ⟨_, List.mem_of_mem_filter hemitted, rfl⟩)⟩
        obtain ⟨t, ht⟩ := hsent
        exact joined hn hone hstart (agreeing_opened hn) hrun (hreceived _ ht hin)

/-- All together put out what the operations call for. -/
theorem emissions_perm (hrun : Proper initial ops (opened initial start) actions)
    (hpeopled : ∀ past p, past ++ [.add p] <+: ops → (agreed initial past).members ≠ [])
    (hdone : ∀ p, p ∈ initial ∨ .add p ∈ ops →
      ((opened initial start).run ops actions).position p = ops.length)
    (hreceived : ∀ x ∈ ((opened initial start).run ops actions).sent, x.1 ∉ initial →
      .transfer x.1 x.2 ∈ actions) :
    (emissions ops (opened initial start) actions).Perm
      ((⟨0, initial⟩ : View).introductions ops) := by
  have hshare : ∀ p, (emissions ops (opened initial start) actions).filter (·.sponsor = p) =
      share initial ops p := by
    intro p
    by_cases hmember : ∃ past, past <+: ops ∧ p ∈ (agreed initial past).members
    · obtain ⟨past, hpast, hp⟩ := hmember
      obtain ⟨hknown, hsome⟩ :=
        members_joined hn hone hstart hrun hpeopled hdone hreceived hpast hp
      exact share_of_done hn hone hstart hrun (hdone p hknown) hsome
    · have hnone : ∀ xs, xs <+: ops → share initial xs p = [] := fun xs hxs =>
        share_eq_nil fun zs _ hzs hp =>
          hmember ⟨zs, ((List.prefix_append _ _).trans hzs).trans hxs, hp⟩
      have hsponsored := sponsored_run (q := p) hn hone hstart (agreeing_opened hn) hrun
        fun _ => sponsored_opened
      rw [Sponsored, hnone _ (List.take_prefix _ _), ite_self, List.nil_append] at hsponsored
      rw [hsponsored, hnone ops (List.prefix_refl ops)]
  rw [List.perm_iff_count]
  intro e
  have hcount := congrArg (List.count e) (hshare e.sponsor)
  rwa [share, List.count_filter (by simp), List.count_filter (by simp)] at hcount

end Runs

/-- Each addition that takes effect is announced to the joiner by one transfer: the first member of
the view before puts it out, and it carries the view that comes next. Nobody puts out any other,
and none is put out at the start. -/
theorem one_sponsor (hn : initial.Nodup) (hone : ∀ p ∉ initial, ops.count (.add p) ≤ 1)
    (hstart : ∀ p ∉ initial, .add p ∈ ops → start p ≤ ops.idxOf (.add p))
    (hpeopled : ∀ past p, past ++ [.add p] <+: ops → (agreed initial past).members ≠ [])
    (hrun : Proper initial ops (opened initial start) actions)
    (hdone : ∀ p, p ∈ initial ∨ .add p ∈ ops →
      ((opened initial start).run ops actions).position p = ops.length)
    (hreceived : ∀ x ∈ ((opened initial start).run ops actions).sent, x.1 ∉ initial →
      .transfer x.1 x.2 ∈ actions) :
    let emitted := emissions ops (opened initial start) actions
    (∀ p, (opening initial p).1.transfers = []) ∧
    (∀ past p next, past ++ [.add p] <+: ops →
      change? (agreed initial past) (.add p) = some next →
      ∃ s, (agreed initial past).sponsor? = some s ∧
        emitted.filter (·.transfer.viewId = next.id) = [⟨s, p, ⟨next.id, next.members, [p]⟩⟩]) ∧
    ∀ e ∈ emitted, ∃ past next, past ++ [.add e.joiner] <+: ops ∧
      change? (agreed initial past) (.add e.joiner) = some next ∧
        e.transfer = ⟨next.id, next.members, [e.joiner]⟩ := by
  intro emitted
  have hperm := emissions_perm hn hone hstart hrun hpeopled hdone hreceived
  refine ⟨fun p => transfers_opening, ?_, ?_⟩
  · intro past p next hpast hchange
    obtain ⟨s, hs⟩ : ∃ s, (agreed initial past).sponsor? = some s :=
      Option.isSome_iff_exists.mp (List.isSome_head?.mpr (hpeopled past p hpast))
    have hcalled := View.introductions_of_id (v := ⟨0, initial⟩) hpast hchange
    refine ⟨s, hs, List.perm_singleton.mp ?_⟩
    rw [← View.introduction_add hs hchange]
    exact hcalled ▸ hperm.filter _
  · intro e he
    obtain ⟨past, op, hpast, he⟩ := View.mem_introductions.mp (hperm.mem_iff.mp he)
    obtain ⟨next, rfl, hchange, -, ht⟩ := View.mem_introduction.mp he
    exact ⟨past, next, hpast, hchange, ht⟩

/-- The first member leaves before a second process joins. The first joiner is fed all of it before
its transfer comes, so it sponsors the second one when it catches up. -/
theorem successor_sponsors : let a : Proc := ⟨"a", 1, 0⟩
    let b : Proc := ⟨"b", 1, 0⟩
    let c : Proc := ⟨"c", 1, 0⟩
    let ops : List MembershipOp := [.add b, .remove a, .add c]
    let start : Proc → Nat := fun p => if p = c then 2 else 0
    let actions : List Action := [.feed a, .feed a, .feed a, .feed b, .feed b, .feed b,
      .transfer b ⟨1, [a, b], [b]⟩, .feed c, .transfer c ⟨3, [b, c], [c]⟩]
    (emissions ops (opened [a] start) actions).filter (·.transfer.viewId = 3) =
      [⟨b, c, ⟨3, [b, c], [c]⟩⟩] := by
  intro a b c ops start actions
  have hone : ∀ p ∉ [a], ops.count (.add p) ≤ 1 := by
    intro p _
    have hbc : b ≠ c := by decide
    simp only [ops, List.count_cons, List.count_nil]
    grind
  have hstart : ∀ p ∉ [a], .add p ∈ ops → start p ≤ ops.idxOf (.add p) := by
    intro p _ _
    simp only [start]
    split
    · rename_i hp
      rw [hp]
      decide
    · exact Nat.zero_le _
  have hpeopled : ∀ past p, past ++ [.add p] <+: ops → (agreed [a] past).members ≠ [] := by
    intro past p hpast
    have hbefore : past <+: ops := (List.prefix_append _ _).trans hpast
    have hsome : ∀ k < 4, (agreed [a] (ops.take k)).members ≠ [] := by decide
    have hlength : past.length < 4 := Nat.lt_succ_of_le hbefore.length_le
    rw [List.prefix_iff_eq_take.mp hbefore]
    exact hsome _ hlength
  have hrun : Proper [a] ops (opened [a] start) actions := by decide
  have hdone : ∀ p, p ∈ [a] ∨ .add p ∈ ops →
      ((opened [a] start).run ops actions).position p = ops.length := by
    intro p hp
    have habc : p = a ∨ p = b ∨ p = c := by simpa [ops] using hp
    rcases habc with rfl | rfl | rfl <;> decide
  have hreceived : ∀ x ∈ ((opened [a] start).run ops actions).sent, x.1 ∉ [a] →
      .transfer x.1 x.2 ∈ actions := by decide
  have hsponsor := (one_sponsor (by decide) hone hstart hpeopled hrun hdone hreceived).2.1
    [.add b, .remove a] c ⟨3, [b, c]⟩ (List.prefix_refl _) (by decide)
  obtain ⟨s, hs, hemitted⟩ := hsponsor
  obtain rfl : b = s := Option.some.inj hs
  exact hemitted

end MembershipGroup

end Multicast
