import Multicast.Proofs.InPlace.Causal
import Multicast.Proofs.InPlace.Fifo
import Multicast.Proofs.InPlace.Membership

/-! What becomes of a layer that refuses a call, and of the request that it hands back when too much
is under way already. -/
namespace Multicast

open InPlace (runAll outcome)

/-- A layer that refuses a call is left exactly as it was, though it makes its changes in place: the
states it brings itself to and the ends of its calls are those that its operations give. A causal
layer whose window is full hands back the payload with each of its destinations once, in the order
in which they first occur, and whatever state it is in when it is asked for that, it does what it
would do if it were asked for the original. -/
theorem refusals_leave_no_trace (here : Proc) (limit : Option Nat) (window capacity : Nat) :
    (∀ calls c,
      let l := runAll FifoLayer.perform (.fresh here limit) calls
      l = (FifoLayer.fresh here limit).run calls ∧
      (FifoLayer.perform c).run l = outcome l (l.call c) ∧
      ∀ e l', (FifoLayer.perform c).run l = .error e l' → l' = l) ∧
    (∀ calls c,
      let l := runAll CausalLayer.perform (.fresh here window capacity) calls
      l = (CausalLayer.fresh here window capacity).run calls ∧
      (CausalLayer.perform c).run l = outcome l (l.call c) ∧
      ∀ e l', (CausalLayer.perform c).run l = .error e l' → l' = l) ∧
    (∀ calls c,
      let l := runAll MembershipLayer.perform { here } calls
      l = MembershipLayer.run here calls ∧
      (MembershipLayer.perform c).run l = outcome l (l.call c) ∧
      ∀ e l', (MembershipLayer.perform c).run l = .error e l' → l' = l) ∧
    ∀ l payload ds outstanding r l',
      (CausalLayer.perform (.send payload ds)).run l = .error (.windowFull outstanding r) l' →
      r = ⟨payload, ds.eraseDups⟩ ∧
      ∀ later, (CausalLayer.perform (.send r.payload r.destinations)).run later =
        (CausalLayer.perform (.send payload ds)).run later := by
  refine ⟨fun calls c => ?_, fun calls c => ?_, fun calls c => ?_, ?_⟩
  · intro l
    have hl : l = (FifoLayer.fresh here limit).run calls :=
      FifoLayer.runAll_perform FifoLayer.kept_fresh calls
    have hkept : l.Kept := hl ▸ FifoLayer.kept_run FifoLayer.kept_fresh
    have hrun := FifoLayer.run_perform hkept c
    exact ⟨hl, hrun, fun e l' h => (InPlace.eq_of_error (hrun.symm.trans h)).1⟩
  · intro l
    have hrun : (CausalLayer.perform c).run l = outcome l (l.call c) := CausalLayer.run_perform c
    exact ⟨CausalLayer.runAll_perform calls, hrun,
      fun e l' h => (InPlace.eq_of_error (hrun.symm.trans h)).1⟩
  · intro l
    have hrun : (MembershipLayer.perform c).run l = outcome l (l.call c) :=
      MembershipLayer.run_perform c
    exact ⟨MembershipLayer.runAll_perform here calls, hrun,
      fun e l' h => (InPlace.eq_of_error (hrun.symm.trans h)).1⟩
  · intro l payload ds outstanding r l' h
    have hrun := CausalLayer.run_perform (l := l) (.send payload ds)
    obtain ⟨rfl, -⟩ := CausalLayer.of_windowFull (InPlace.eq_of_error (hrun.symm.trans h)).2
    refine ⟨by rw [Proc.firsts_eq_eraseDups], fun later => ?_⟩
    rw [CausalLayer.run_perform, CausalLayer.run_perform]
    exact congrArg (outcome later) CausalLayer.send_firsts

/-- Two processes, and room for one message. The second names its destination twice. -/
theorem fullWindow_leaves_no_trace : let a : Proc := ⟨"a", 1, 0⟩
    let b : Proc := ⟨"b", 1, 0⟩
    let l := runAll CausalLayer.perform (.fresh a 1 0) [.init [a, b], .send [1] [b]]
    (CausalLayer.perform (.send [2] [b, a, b])).run l =
      .error (.windowFull 1 ⟨[2], [b, a]⟩) l ∧
    ∀ later, (CausalLayer.perform (.send [2] [b, a])).run later =
      (CausalLayer.perform (.send [2] [b, a, b])).run later := by
  intro a b l
  have hfull : (CausalLayer.perform (.send [2] [b, a, b])).run l =
      .error (.windowFull 1 ⟨[2], [b, a]⟩) l := by rfl
  obtain ⟨-, -, -, hwindow⟩ := refusals_leave_no_trace a none 1 0
  exact ⟨hfull, (hwindow l [2] [b, a, b] 1 _ l hfull).2⟩

end Multicast
