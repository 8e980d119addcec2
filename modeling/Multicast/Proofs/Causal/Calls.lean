import Multicast.Proofs.Causal.History
import Multicast.Proofs.Causal.Runs

/-! What the layers of a group are asked, by their processes and by the packets that come in. The
log of a group tells what each layer does in the calls that are made to it, and so what these calls
put out. -/
namespace Multicast

namespace History
variable {h : History} {p q : Proc} {e : CausalEvent} {es : List CausalEvent}

/-- What `p` has done. -/
def part (h : History) (p : Proc) : List CausalEvent :=
  h.filterMap fun x => if x.1 = p then some x.2 else none

theorem mem_part : e ∈ h.part p ↔ (p, e) ∈ h := by
  simp only [part, List.mem_filterMap]
  constructor
  · rintro ⟨⟨q, f⟩, hmem, he⟩
    split at he
    · rename_i hq
      cases he
      cases hq
      exact hmem
    · cases he
  · intro hmem
    exact ⟨_, hmem, if_pos rfl⟩

theorem part_append_map : part (h ++ es.map (q, ·)) p = h.part p ++ if p = q then es else [] := by
  rw [part, List.filterMap_append, List.filterMap_map]
  congr 1
  split
  · rename_i hp
    simp [hp]
  · rename_i hp
    simp [Ne.symm hp]

end History

namespace Group
open History

variable {g g' g'' : Group} {p q : Proc} {c : CausalCall} {cs ds : List CausalCall}
  {l : CausalLayer} {es : List CausalEvent} {a : Action} {actions : List Action}

/-- All that the layer of `p` has put out. -/
def output (g : Group) (p : Proc) : CausalOutput := CausalEvent.outputs (part g.log p)

/-- The call that comes of an action, and the process to whose layer it is made. -/
def callOf? (g : Group) : Action → Option (Proc × CausalCall)
  | .deliver f | .copy f =>
    if f ∈ g.flying then some (f.target, .deliver f.source f.packet) else none
  | a => a.own?

/-- What the layer of `p` is asked in an action. -/
def asked (g : Group) (p : Proc) (a : Action) : List CausalCall :=
  match g.callOf? a with
  | some (q, c) => if q = p then [c] else []
  | none => []

/-- What the layer of `p` is asked in some actions, oldest first. -/
def calls (g : Group) (p : Proc) : List Action → List CausalCall
  | [] => []
  | a :: actions => g.asked p a ++ (g.step a).calls p actions

@[simp] theorem part_absorb :
    part (g.absorb p es l).log q = part g.log q ++ if q = p then es else [] :=
  part_append_map

/-- From one group to another, the layer of `p` is asked `cs`, and the log tells what it does. -/
structure Follows (p : Proc) (cs : List CausalCall) (g g' : Group) : Prop where
  layer : g'.layers p = (g.layers p).run cs
  log : part g'.log p = part g.log p ++ (g.layers p).history cs

theorem Follows.refl : Follows p [] g g := ⟨rfl, (List.append_nil _).symm⟩

theorem Follows.trans (h : Follows p cs g g') (h' : Follows p ds g' g'') :
    Follows p (cs ++ ds) g g'' where
  layer := by rw [h'.layer, h.layer, CausalLayer.run_append]
  log := by rw [h'.log, h.log, h.layer, CausalLayer.history_append, List.append_assoc]

theorem follows_call : Follows p (if q = p then [c] else []) g (g.call q c) := by
  cases h : (g.layers q).call c with
  | error e =>
    obtain ⟨hsame, hnone⟩ := CausalLayer.unchanged_of_error h
    rw [call_of_error h]
    split
    · rename_i hq
      subst hq
      exact ⟨hsame.symm, by simp [CausalLayer.history, hnone]⟩
    · exact .refl
  | ok result =>
    rw [call_of_ok h]
    split
    · rename_i hq
      subst hq
      refine ⟨?_, by simp [CausalLayer.history]⟩
      rw [absorb_layers_self]
      exact (CausalLayer.after_of_ok h).symm
    · rename_i hq
      refine ⟨absorb_layers_of_ne (Ne.symm hq), ?_⟩
      rw [part_absorb, if_neg (Ne.symm hq)]
      rfl

theorem follows_step : Follows p (g.asked p a) g (g.step a) := by
  cases a with
  | init q members | view q members | send q payload destinations => exact follows_call
  | deliver f =>
    by_cases hf : f ∈ g.flying
    · simp only [asked, callOf?, step, if_pos hf]
      exact ⟨follows_call.layer, follows_call.log⟩
    · simp only [asked, callOf?, step, if_neg hf]
      exact .refl
  | copy f =>
    by_cases hf : f ∈ g.flying
    · simp only [asked, callOf?, step, if_pos hf]
      exact follows_call
    · simp only [asked, callOf?, step, if_neg hf]
      exact .refl
  | lose f => exact ⟨rfl, (List.append_nil _).symm⟩

theorem follows_run : Follows p (g.calls p actions) g (g.run actions) := by
  induction actions generalizing g with
  | nil => exact .refl
  | cons a actions ih => exact follows_step.trans ih

theorem Follows.output (h : Follows p cs g g') :
    g'.output p = g.output p ++ (g.layers p).output cs := by
  rw [Group.output, h.log, CausalLayer.outputs_append, CausalLayer.outputs_history, Group.output]

theorem output_call {o : CausalOutput} (h : (g.layers p).call c = .ok (o, l)) :
    (g.call p c).output q = g.output q ++ if q = p then o else {} := by
  rw [follows_call.output]
  by_cases hq : q = p
  · subst hq
    simp [CausalLayer.output, CausalLayer.outputOf, h]
  · rw [if_neg hq, if_neg (Ne.symm hq)]
    rfl

/-- What the log of a run tells was put out by a layer is what the calls to it have put out. -/
theorem output_run (h : g.Blank) :
    (g.run actions).output p = (g.layers p).output (g.calls p actions) := by
  have hnone : g.output p = {} := by
    rw [Group.output, h.log]
    rfl
  rw [follows_run.output, hnone, Output.empty_append]

end Group

end Multicast
