import Mathlib.Logic.Function.Basic
import Multicast.Proofs.Fifo.Calls

/-! A group of FIFO layers, one of each process, and what they have done. -/
namespace Multicast

/-- A call of a process, and its output unless the layer refused it. -/
structure FifoRecord where
  process : Proc
  call : FifoCall
  output : Option FifoOutput
  deriving DecidableEq, Repr

namespace FifoRecord

/-- What the calls of `p` amount to, one after another. -/
def collect {α : Type} (log : List FifoRecord) (p : Proc)
    (f : FifoCall → Option FifoOutput → List α) : List α :=
  log.flatMap fun r => if r.process = p then f r.call r.output else []

/-- The payloads that `a` has sent to `b`. -/
def payloads (log : List FifoRecord) (a b : Proc) : List Bytes :=
  collect log a fun c o => o.elim [] fun _ => c.payloadsTo b

/-- The packets that the layer of `a` has put out for `b`. -/
def packets (log : List FifoRecord) (a b : Proc) : List FifoPacket :=
  collect log a fun _ o => o.elim [] (·.packetsTo b)

/-- The packets of `a` that have come to `b`. -/
def arrived (log : List FifoRecord) (a b : Proc) : List FifoPacket :=
  collect log b fun c _ => c.packetsFrom a

/-- The packets of `a` that the layer of `b` has accepted. -/
def accepted (log : List FifoRecord) (a b : Proc) : List FifoPacket :=
  collect log b fun c o => o.elim [] fun _ => c.packetsFrom a

/-- The payloads of `a` that `b` has delivered. -/
def delivered (log : List FifoRecord) (a b : Proc) : List Bytes :=
  collect log b fun _ o => o.elim [] (·.deliveredFrom a)

end FifoRecord

structure FifoGroup where
  layers : Proc → FifoLayer
  /-- What every process has done, oldest first. -/
  log : List FifoRecord

namespace FifoGroup
open FifoRecord

variable {g : FifoGroup} {p q a b : Proc} {c : FifoCall}

def step (g : FifoGroup) (x : Proc × FifoCall) : FifoGroup where
  layers := Function.update g.layers x.1 ((g.layers x.1).after x.2)
  log := g.log ++ [⟨x.1, x.2, (g.layers x.1).answer x.2⟩]

def run (g : FifoGroup) (actions : List (Proc × FifoCall)) : FifoGroup := actions.foldl step g

/-- No process has a member list yet. -/
def scattered (limit : Proc → Option Nat) : FifoGroup where
  layers p := { here := p, limit := limit p }
  log := []

/-- Every process has started with a member list of its own. -/
def opened (limit : Proc → Option Nat) (lists : Proc → List Proc) : FifoGroup where
  layers p := ((scattered limit).layers p).after (.init (lists p))
  log := []

@[simp] theorem step_layers_self : (g.step (p, c)).layers p = (g.layers p).after c :=
  Function.update_self _ _ _

theorem step_layers_of_ne (h : q ≠ p) : (g.step (p, c)).layers q = g.layers q :=
  Function.update_of_ne h _ _

theorem collect_step {α : Type} {f : FifoCall → Option FifoOutput → List α} :
    collect (g.step (p, c)).log q f =
      collect g.log q f ++ if p = q then f c ((g.layers p).answer c) else [] := by
  simp [step, collect, List.flatMap_append]

end FifoGroup

end Multicast
