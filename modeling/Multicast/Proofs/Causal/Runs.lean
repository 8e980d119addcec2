import Multicast.Proofs.Causal.Members

/-! What a causal layer does and puts out in some calls, one after another. -/
namespace Multicast.CausalLayer
open CausalEvent (outputs)

variable {l : CausalLayer} {c : CausalCall} {calls more : List CausalCall}

/-- What a call puts out. A refused call puts out nothing. -/
def outputOf (l : CausalLayer) (c : CausalCall) : CausalOutput :=
  match l.call c with
  | .ok (o, _) => o
  | .error _ => {}

/-- What some calls put out, one after another. -/
def output (l : CausalLayer) : List CausalCall → CausalOutput
  | [] => {}
  | c :: calls => l.outputOf c ++ (l.after c).output calls

/-- What happens in some calls, one after another. -/
def history (l : CausalLayer) : List CausalCall → List CausalEvent
  | [] => []
  | c :: calls => l.events c ++ (l.after c).history calls

theorem here_after : (l.after c).here = l.here := by
  cases h : l.call c with
  | error e => rw [(unchanged_of_error h).1]
  | ok result =>
    obtain ⟨es, m, fs, hs, hd, -, -⟩ := call_ok h
    rw [after_of_ok h, drains_here hd, step_here hs]

theorem here_run : (l.run calls).here = l.here := by
  induction calls generalizing l with
  | nil => rfl
  | cons c calls ih => exact (ih (l := l.after c)).trans here_after

theorem run_cons {c : CausalCall} : l.run (c :: calls) = (l.after c).run calls := rfl

theorem run_append : l.run (calls ++ more) = (l.run calls).run more :=
  List.foldl_append

theorem history_append :
    l.history (calls ++ more) = l.history calls ++ (l.run calls).history more := by
  induction calls generalizing l with
  | nil => rfl
  | cons c calls ih => rw [List.cons_append, history, ih, history, List.append_assoc, run_cons]

theorem history_append_singleton :
    l.history (calls ++ [c]) = l.history calls ++ (l.run calls).events c := by
  rw [history_append, history, history, List.append_nil]

/-- The output of a run is that of its events. -/
theorem outputs_history : outputs (l.history calls) = l.output calls := by
  induction calls generalizing l with
  | nil => rfl
  | cons c calls ih =>
    rw [history, outputs_append, ih, output]
    congr 1
    cases h : l.call c with
    | error e => rw [(unchanged_of_error h).2, outputOf, h]; rfl
    | ok result => rw [outputs_events h, outputOf, h]

end Multicast.CausalLayer
