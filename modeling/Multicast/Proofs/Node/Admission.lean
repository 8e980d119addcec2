import Multicast.Proofs.Node.Deeds

/-! Causal sends that come while the window is full are parked. What a node takes up is decided in
the order it came, and whoever waits for a decision is answered once. -/
namespace Multicast

/-- What a causal layer decides on a message that it is given. -/
structure Decision where
  request : CausalRequest
  /-- The error with which the layer has refused the message, if it has. -/
  refusal : Option OrderError
  deriving DecidableEq, Repr

/-- What the call that waits for the decision is told. -/
def Decision.answer (v : Decision) (t : Ticket) : Answer :=
  ⟨t, v.refusal.elim (.ok .sent) fun e => .error (.order e)⟩

/-- What a call is told if the node stops first. -/
def Answer.shutdown (t : Ticket) : Answer := ⟨t, .error .shutdown⟩

/-- The answer is about the view, and not about a message. -/
def Answer.isView (a : Answer) : Bool :=
  match a.result with
  | .ok (.view _) => true
  | .ok .sent | .error _ => false

/-- The request with each of its destinations once. -/
def CausalRequest.plain (r : CausalRequest) : CausalRequest :=
  ⟨r.payload, Proc.firsts r.destinations⟩

def ParkedSend.plain (s : ParkedSend) : ParkedSend := { s with request := s.request.plain }

namespace Deed

variable {l : CausalLayer} {d : Deed} {ds es : List Deed}

/-- What the layer decides on a message that it is given. It decides nothing if it hands it back. -/
def decision? (l : CausalLayer) : Deed → Option Decision
  | .causalSent payload destinations =>
    match l.send payload destinations with
    | .ok _ => some ⟨CausalRequest.plain ⟨payload, destinations⟩, none⟩
    | .error (.order e) => some ⟨CausalRequest.plain ⟨payload, destinations⟩, some e⟩
    | .error (.windowFull ..) => none
  | _ => none

/-- All decisions of a layer, in the order in which it makes them. -/
def decisions (l : CausalLayer) : List Deed → List Decision
  | [] => []
  | d :: ds => (d.decision? l).toList ++ decisions (d.onCausal l) ds

theorem decisions_append :
    decisions l (ds ++ es) = decisions l ds ++ decisions (ds.foldl onCausal l) es := by
  induction ds generalizing l with
  | nil => rfl
  | cons d ds ih =>
    rw [List.cons_append, decisions, decisions, ih, List.append_assoc, List.foldl_cons]

end Deed

namespace Node
open Deed

variable {n n' m : Node} {log log' : List Deed} {s s' : ParkedSend}
  {new new' ps rest : List ParkedSend} {h : HeldPacket} {hs : List HeldPacket} {v : View} {p : Proc}
  {command : Command} {i : Incident}

/-- The answers about messages. -/
def sendAnswers (n : Node) : List Answer := n.answers.filter (!·.isView)

/-- No send is parked or taken out, and none is answered. -/
structure Spares (n n' : Node) : Prop where
  parked : n'.parked = n.parked
  answers : n'.sendAnswers = n.sendAnswers

theorem Spares.refl : Spares n n := ⟨rfl, rfl⟩

theorem Spares.trans (h : Spares n n') (h' : Spares n' m) : Spares n m :=
  ⟨h'.parked.trans h.parked, h'.answers.trans h.answers⟩

/-- The sends `new` are taken up, while `log` is done. Those that were parked and the new ones are,
in this order, those that are decided and answered meanwhile and those that are parked now. -/
structure Settles (n : Node) (new : List ParkedSend) (log : List Deed) (n' : Node) : Prop where
  causal : n'.causal = log.foldl onCausal n.causal
  decided : ∃ settled : List (Ticket × Decision),
    (n.parked ++ new).map ParkedSend.plain =
      settled.map (fun x => ⟨x.1, x.2.request⟩) ++ n'.parked.map ParkedSend.plain ∧
    settled.map (·.2) = decisions n.causal log ∧
    n'.sendAnswers = n.sendAnswers ++ settled.map fun x => x.2.answer x.1

theorem Settles.trans (h : Settles n new log n') (h' : Settles n' new' log' m) :
    Settles n (new ++ new') (log ++ log') m := by
  obtain ⟨settled, horder, hdecisions, hanswers⟩ := h.decided
  obtain ⟨settled', horder', hdecisions', hanswers'⟩ := h'.decided
  refine ⟨by rw [h'.causal, h.causal, List.foldl_append], settled ++ settled', ?_, ?_, ?_⟩
  · rw [← List.append_assoc, List.map_append, horder, List.append_assoc, ← List.map_append,
      horder', List.map_append, List.append_assoc]
  · rw [List.map_append, hdecisions, hdecisions', h.causal, decisions_append]
  · rw [hanswers', hanswers, List.map_append, List.append_assoc]

/-- What leaves the sends alone settles none of them. -/
theorem Spares.settles (h : Spares n n') (hcausal : n'.causal = log.foldl onCausal n.causal)
    (hnone : decisions n.causal log = []) : Settles n [] log n' := by
  refine ⟨hcausal, [], ?_, hnone.symm, ?_⟩
  · rw [h.parked, List.append_nil]
    rfl
  · rw [h.answers]
    exact (List.append_nil _).symm

theorem Spares.silent (h : Spares n n') (hcausal : n'.causal = n.causal) : Settles n [] [] n' :=
  h.settles hcausal rfl

end Node

end Multicast
