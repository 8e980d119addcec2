import Multicast.Proofs.Membership.Waiting

/-! The directives and the views that a membership layer puts out go in pairs, and each pair is one
step from the view before it. So whoever follows the directives has the members of the view. -/
namespace Multicast

/-- The operation changes the members of the view. -/
def MembershipOp.Changes (v : View) : MembershipOp → Prop
  | .add p => p ∉ v.members
  | .remove p => p ∈ v.members

namespace MembershipDirective

/-- What a directive makes of a member list. -/
def mirror (members : List Proc) : MembershipDirective → List Proc
  | .joinList members' => members'
  | .added p => members ++ [p]
  | .removed p => members.filter (· ≠ p)

/-- A directive leads from the view there was, if any, to one announced with it. -/
inductive Leads : Option View → MembershipDirective → View → Prop
  | joinList {v : View} (distinct : v.members.Nodup) : Leads none (.joinList v.members) v
  | added {v : View} {p : Proc} (absent : p ∉ v.members) :
      Leads (some v) (.added p) ⟨v.id + 1, v.members ++ [p]⟩
  | removed {v : View} {p : Proc} (present : p ∈ v.members) :
      Leads (some v) (.removed p) ⟨v.id + 1, v.members.filter (· ≠ p)⟩

end MembershipDirective

open MembershipDirective (Leads mirror)

/-- The members of the view there is, and none before there is any. -/
def membersOf (view : Option View) : List Proc := view.elim [] (·.members)

/-- Directives and views that lead, pair by pair, from one view to another. -/
inductive Lockstep : Option View → List MembershipDirective → List View → Option View → Prop
  | done {view : Option View} : Lockstep view [] [] view
  | step {view last : Option View} {d : MembershipDirective} {v : View}
      {ds : List MembershipDirective} {vs : List View} (leads : Leads view d v)
      (rest : Lockstep (some v) ds vs last) : Lockstep view (d :: ds) (v :: vs) last

section

variable {view middle last : Option View} {d : MembershipDirective} {v w : View}
  {ds es : List MembershipDirective} {vs ws : List View}

theorem MembershipDirective.Leads.nodup (h : Leads view d w)
    (hn : ∀ v, view = some v → v.members.Nodup) : w.members.Nodup := by
  cases h with
  | joinList distinct => exact distinct
  | added absent =>
    refine List.nodup_append.mpr ⟨hn _ rfl, List.pairwise_singleton _ _, ?_⟩
    rintro q hq _ hp rfl
    exact absent (List.mem_singleton.mp hp ▸ hq)
  | removed present => exact (hn _ rfl).filter _

theorem MembershipDirective.Leads.mirror_eq (h : Leads view d w) :
    mirror (membersOf view) d = w.members := by
  cases h <;> rfl

namespace Lockstep

theorem single (h : Leads view d v) : Lockstep view [d] [v] (some v) := .step h .done

theorem trans (h : Lockstep view ds vs middle) (h' : Lockstep middle es ws last) :
    Lockstep view (ds ++ es) (vs ++ ws) last := by
  induction h with
  | done => exact h'
  | step leads _ ih => exact .step leads (ih h')

theorem nodup (h : Lockstep view ds vs last) (hn : ∀ v, view = some v → v.members.Nodup) :
    ∀ v, last = some v → v.members.Nodup := by
  induction h with
  | done => exact hn
  | step leads _ ih =>
    apply ih
    rintro _ ⟨⟩
    exact leads.nodup hn

/-- The last view that is announced is where the steps have led. -/
theorem getLast?_or (h : Lockstep view ds vs last) : vs.getLast?.or view = last := by
  induction h with
  | done => rfl
  | @step _ _ _ v _ vs _ _ ih =>
    rw [List.getLast?_cons, ← ih]
    cases vs.getLast? <;> rfl

/-- Whoever follows the directives comes to have the members of the last view. -/
theorem foldl_mirror (h : Lockstep view ds vs last) :
    ds.foldl mirror (membersOf view) = membersOf last := by
  induction h with
  | done => rfl
  | step leads _ ih =>
    rw [List.foldl_cons, leads.mirror_eq]
    exact ih

end Lockstep

end

namespace MembershipLayer

variable {here : Proc} {l l' : MembershipLayer} {c : MembershipCall} {v : View}
  {op : MembershipOp} {ops : List MembershipOp} {calls more : List MembershipCall}
  {o : MembershipOutput}

/-- What a call puts out. A call that is refused puts out nothing. -/
def emits (l : MembershipLayer) (c : MembershipCall) : MembershipOutput :=
  match l.call c with
  | .ok r => r.1
  | .error _ => {}

/-- What calls put out, one after another. -/
def output (l : MembershipLayer) : List MembershipCall → MembershipOutput
  | [] => {}
  | c :: calls => l.emits c ++ (l.after c).output calls

/-- The directives and views of an output lead from the view of one layer to that of another. -/
def Steps (l : MembershipLayer) (o : MembershipOutput) (l' : MembershipLayer) : Prop :=
  Lockstep l.view o.directives o.newViews l'.view

theorem Steps.refl (ho : o.directives = [] ∧ o.newViews = []) (hv : l'.view = l.view) :
    l.Steps o l' := by
  rw [Steps, ho.1, ho.2, hv]
  exact .done

/-! ### One operation -/

theorem change?_eq_none_iff : change? v op = none ↔ ¬ op.Changes v := by
  cases op with
  | add p =>
    simp only [change?, MembershipOp.Changes]
    split <;> simp_all
  | remove p =>
    simp only [change?, MembershipOp.Changes]
    split <;> simp_all

/-- An operation that changes the members is announced by one directive and one view. -/
theorem steps_announce {w : View} (hn : v.members.Nodup) (hc : change? v op = some w) :
    Lockstep (some v) (l.announce v w op).directives (l.announce v w op).newViews (some w) := by
  cases op with
  | add p =>
    simp only [change?] at hc
    split at hc
    · cases hc
    · rename_i habsent
      cases hc
      exact .single (.added habsent)
  | remove p =>
    simp only [change?] at hc
    split at hc
    · rename_i hpresent
      cases hc
      have herase : v.members.erase p = v.members.filter (· ≠ p) := by
        rw [hn.erase_eq_filter]
        exact List.filter_congr fun q _ => by simp [bne, beq_eq_decide]
      rw [herase]
      exact .single (.removed hpresent)
    · cases hc

/-- An operation is announced exactly if it changes the members. Otherwise nothing at all is
done. -/
theorem adeliver_eq_iff (hv : l.view = some v) :
    l.adeliver op = ({}, l) ↔ ¬ op.Changes v := by
  rw [← change?_eq_none_iff]
  simp only [adeliver, hv, apply]
  cases hc : change? v op with
  | none => simp
  | some w =>
    have hne : (l.announce v w op).newViews ≠ [] := by cases op <;> exact List.cons_ne_nil _ _
    refine iff_of_false (fun h => hne ?_) (Option.some_ne_none w)
    exact congrArg (fun r => r.1.newViews) h

theorem steps_adeliver (hn : ∀ v, l.view = some v → v.members.Nodup) :
    l.Steps (l.adeliver op).1 (l.adeliver op).2 := by
  cases hv : l.view with
  | none =>
    rw [adeliver_waits hv]
    exact .refl ⟨rfl, rfl⟩ rfl
  | some v =>
    simp only [adeliver, hv, apply]
    cases hc : change? v op with
    | none => exact .refl ⟨rfl, rfl⟩ rfl
    | some w =>
      rw [Steps, hv]
      exact steps_announce (hn v hv) hc

theorem Steps.nodup (h : l.Steps o l') (hn : ∀ v, l.view = some v → v.members.Nodup) :
    ∀ v, l'.view = some v → v.members.Nodup := Lockstep.nodup h hn

theorem steps_adeliverAll (hn : ∀ v, l.view = some v → v.members.Nodup) :
    l.Steps (l.adeliverAll ops).1 (l.adeliverAll ops).2 := by
  induction ops generalizing l with
  | nil => exact .refl ⟨rfl, rfl⟩ rfl
  | cons op ops ih =>
    have hfirst : l.Steps (l.adeliver op).1 (l.adeliver op).2 := steps_adeliver hn
    exact Lockstep.trans hfirst (ih (hfirst.nodup hn))

/-! ### One call -/

theorem emits_of_ok {r : MembershipOutput × MembershipLayer} (h : l.call c = .ok r) :
    l.emits c = r.1 ∧ l.after c = r.2 := by
  simp only [emits, after, h, and_self]

theorem emits_of_error {e : MembershipError} (h : l.call c = .error e) :
    l.emits c = {} ∧ l.after c = l := by
  simp only [emits, after, h, and_self]

/-- A call that brings the first view announces it, and then what operations make of it. -/
theorem steps_opening (hv : l.view = none) (hc : c.view? = some v) (hn : v.members.Nodup) :
    l.Steps (l.emits c) (l.after c) ∧ (l.emits c).newViews.head? = some v := by
  obtain ⟨hemits, hafter⟩ := emits_of_ok (call_of_view? hv hc hn)
  have harrival : (c.arrival l.here v).directives = [.joinList v.members] ∧
      (c.arrival l.here v).newViews = [v] := by
    cases c <;> exact ⟨rfl, rfl⟩
  have hfirst : Lockstep none (c.arrival l.here v).directives (c.arrival l.here v).newViews
      (some v) := by
    rw [harrival.1, harrival.2]
    exact .single (.joinList hn)
  let l₁ : MembershipLayer := { l with view := some v, waiting := c.left l.waiting }
  have hrest : l₁.Steps (l₁.adeliverAll (c.replayed l.waiting)).1
      (l₁.adeliverAll (c.replayed l.waiting)).2 := steps_adeliverAll (by rintro _ ⟨⟩; exact hn)
  rw [hemits, hafter]
  constructor
  · rw [Steps, hv]
    exact hfirst.trans hrest
  · change ((c.arrival l.here v).newViews ++ _).head? = some v
    rw [harrival.2]
    rfl

/-- A call that brings the first view is accepted exactly if no member of it is repeated, and then
announces it before anything else. -/
theorem call_opening (hv : l.view = none) (hc : c.view? = some v) :
    ((∃ r, l.call c = .ok r) ↔ v.members.Nodup) ∧
      ∀ r, l.call c = .ok r → r.1.newViews.head? = some v := by
  by_cases hn : v.members.Nodup
  · refine ⟨iff_of_true ⟨_, call_of_view? hv hc hn⟩ hn, fun r hr => ?_⟩
    rw [← (emits_of_ok hr).1]
    exact (steps_opening hv hc hn).2
  · obtain ⟨e, he⟩ := call_error_of_view? hv hc hn
    simp [he, hn]

/-- A call that neither feeds an operation nor brings the first view announces nothing. -/
theorem call_cases (l : MembershipLayer) (c : MembershipCall) :
    (∃ op, c = .adeliver op) ∨
    (l.view = none ∧ ∃ v, c.view? = some v ∧ v.members.Nodup) ∨
    ((l.emits c).directives = [] ∧ (l.emits c).newViews = [] ∧ l.after c = l) := by
  have hrefused {e : MembershipError} (h : l.call c = .error e) :
      (l.emits c).directives = [] ∧ (l.emits c).newViews = [] ∧ l.after c = l := by
    obtain ⟨hemits, hafter⟩ := emits_of_error h
    rw [hemits]
    exact ⟨rfl, rfl, hafter⟩
  cases c with
  | adeliver op => exact .inl ⟨op, rfl⟩
  | join p | remove p => exact .inr (.inr ⟨rfl, rfl, rfl⟩)
  | init members =>
    cases hv : l.view with
    | some v => exact .inr (.inr (hrefused (e := .alreadyInitialized) (by simp [call, init, hv])))
    | none =>
      by_cases hmembers : members = []
      · refine .inr (.inr ?_)
        obtain ⟨hemits, hafter⟩ := emits_of_ok (l := l) (c := .init members) (r := ({}, l))
          (by simp [call, init, hv, hmembers])
        rw [hemits]
        exact ⟨rfl, rfl, hafter⟩
      · by_cases hn : members.Nodup
        · exact .inr (.inl ⟨rfl, ⟨0, members⟩, if_neg hmembers, hn⟩)
        · obtain ⟨e, he⟩ := call_error_of_view? hv (c := .init members) (if_neg hmembers) hn
          exact .inr (.inr (hrefused he))
  | transfer t =>
    cases hv : l.view with
    | some v =>
      have hsome : l.view.isSome = true := by rw [hv]; rfl
      obtain ⟨hemits, hafter⟩ := emits_of_ok (c := .transfer t) (deliverState_ignored hsome)
      rw [hemits]
      exact .inr (.inr ⟨rfl, rfl, hafter⟩)
    | none =>
      by_cases hn : t.members.Nodup
      · exact .inr (.inl ⟨rfl, ⟨t.viewId, t.members⟩, rfl, hn⟩)
      · obtain ⟨e, he⟩ := call_error_of_view? hv (c := .transfer t) rfl hn
        exact .inr (.inr (hrefused he))

theorem steps_call (hn : ∀ v, l.view = some v → v.members.Nodup) :
    l.Steps (l.emits c) (l.after c) := by
  rcases call_cases l c with ⟨op, rfl⟩ | ⟨hv, v, hc, hnodup⟩ | ⟨hdirectives, hviews, hafter⟩
  · exact steps_adeliver hn
  · exact (steps_opening hv hc hnodup).1
  · exact .refl ⟨hdirectives, hviews⟩ (congrArg _ hafter)

/-- The first view that is announced is the one that the call brings. -/
theorem view?_of_head? (hv : l.view = none) (hw : (l.emits c).newViews.head? = some v) :
    c.view? = some v ∧ v.members.Nodup := by
  rcases call_cases l c with ⟨op, rfl⟩ | ⟨-, w, hc, hn⟩ | ⟨-, hviews, -⟩
  · have hnone : l.emits (.adeliver op) = {} := congrArg Prod.fst (adeliver_waits hv)
    rw [hnone] at hw
    cases hw
  · obtain rfl : w = v := Option.some.inj ((steps_opening hv hc hn).2.symm.trans hw)
    exact ⟨hc, hn⟩
  · rw [hviews] at hw
    cases hw

/-! ### Runs -/

theorem steps_run (hn : ∀ v, l.view = some v → v.members.Nodup) :
    l.Steps (l.output calls) (calls.foldl after l) := by
  induction calls generalizing l with
  | nil => exact .refl ⟨rfl, rfl⟩ rfl
  | cons c calls ih =>
    have hfirst : l.Steps (l.emits c) (l.after c) := steps_call hn
    exact Lockstep.trans hfirst (ih (hfirst.nodup hn))

/-- The first view that is announced is brought by a call, and there was none before. -/
theorem brought_of_head? (hv : l.view = none) (hw : (l.output calls).newViews.head? = some v) :
    ∃ earlier c later, calls = earlier ++ c :: later ∧ (earlier.foldl after l).view = none ∧
      c.view? = some v ∧ v.members.Nodup := by
  induction calls generalizing l with
  | nil => cases hw
  | cons c calls ih =>
    have hviews : (l.output (c :: calls)).newViews =
        (l.emits c).newViews ++ ((l.after c).output calls).newViews := rfl
    cases hemits : (l.emits c).newViews with
    | cons w ws =>
      have hfirst : (l.emits c).newViews.head? = some v := by
        rw [hviews, hemits] at hw
        rw [hemits]
        exact hw
      exact ⟨[], c, calls, rfl, hv, view?_of_head? hv hfirst⟩
    | nil =>
      have hsteps : l.Steps (l.emits c) (l.after c) := steps_call (by simp [hv])
      have hnone : (l.after c).view = none := by
        rw [← hsteps.getLast?_or, hemits, hv]
        rfl
      rw [hviews, hemits, List.nil_append] at hw
      obtain ⟨earlier, d, later, hcalls, hstart, hd⟩ := ih hnone hw
      exact ⟨c :: earlier, d, later, congrArg (c :: ·) hcalls, hstart, hd⟩

theorem newViews_output_append : (l.output (calls ++ more)).newViews =
    (l.output calls).newViews ++ ((calls.foldl after l).output more).newViews := by
  induction calls generalizing l with
  | nil => rfl
  | cons c calls ih =>
    change (l.emits c).newViews ++ ((l.after c).output (calls ++ more)).newViews = _
    rw [ih, ← List.append_assoc]
    rfl

/-- While there is no view, none was announced. So a call that brings one announces the first. -/
theorem head?_of_brought (hv : l.view = none) (hstill : (calls.foldl after l).view = none)
    (hc : c.view? = some v) (hn : v.members.Nodup) :
    (l.output (calls ++ c :: more)).newViews.head? = some v := by
  have hsteps : l.Steps (l.output calls) (calls.foldl after l) := steps_run (by simp [hv])
  have hnone : (l.output calls).newViews = [] := by
    have hlast := hsteps.getLast?_or
    rw [hv, hstill, Option.or_none] at hlast
    exact List.getLast?_eq_none_iff.mp hlast
  rw [newViews_output_append, hnone, List.nil_append]
  change (((calls.foldl after l).emits c).newViews ++ _).head? = some v
  rw [List.head?_append, (steps_opening hstill hc hn).2]
  rfl

/-- Whatever is asked of a layer, its view never has a member twice. The directives and the views
it has put out go in pairs: the first pair is the member list of the view that the first accepted
call with one brought, and each further one adds or removes one process and counts one up. The last
view that was announced is the current one. Without a view, a call that brings one is accepted
exactly if no member of it is repeated, and then announces it. Once there is a view, an operation
that does not change the members, and a further transfer, put out nothing and leave the layer as it
is. So a list that follows the directives has the current members. -/
theorem views_announced (here : Proc) (calls : List MembershipCall) :
    let l := run here calls
    let o := output { here } calls
    (∀ v, l.view = some v → v.members.Nodup) ∧
    Lockstep none o.directives o.newViews l.view ∧
    (∀ v, o.newViews.head? = some v ↔ ∃ earlier c later, calls = earlier ++ c :: later ∧
      (run here earlier).view = none ∧ c.view? = some v ∧ v.members.Nodup) ∧
    o.newViews.getLast? = l.view ∧
    (l.view = none → ∀ c v, c.view? = some v →
      ((∃ r, l.call c = .ok r) ↔ v.members.Nodup) ∧
      ∀ r, l.call c = .ok r → r.1.newViews.head? = some v) ∧
    (∀ v, l.view = some v →
      (∀ op, l.call (.adeliver op) = .ok ({}, l) ↔ ¬ op.Changes v) ∧
      ∀ t, l.call (.transfer t) = .ok ({}, l)) ∧
    o.directives.foldl mirror [] = membersOf l.view := by
  intro l o
  have hsteps : Lockstep none o.directives o.newViews l.view :=
    steps_run (l := { here }) nofun
  refine ⟨hsteps.nodup nofun, hsteps, fun v => ⟨brought_of_head? rfl, ?_⟩, ?_,
    fun hv c v hc => call_opening hv hc, ?_, hsteps.foldl_mirror⟩
  · rintro ⟨earlier, c, later, rfl, hstill, hc, hn⟩
    exact head?_of_brought rfl hstill hc hn
  · rw [← hsteps.getLast?_or, Option.or_none]
  · intro v hv
    refine ⟨fun op => ?_, fun t => deliverState_ignored (by rw [hv]; rfl)⟩
    rw [← adeliver_eq_iff hv]
    exact ⟨fun h => Except.ok.inj h, fun h => congrArg Except.ok h⟩

end MembershipLayer

end Multicast
