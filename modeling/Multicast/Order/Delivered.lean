import Multicast.MessageId
import Multicast.Table

/-! The set of delivered messages, kept as runs of consecutive numbers. -/
namespace Multicast

/-- The numbers from `first` to `last`, both included. -/
structure Run where
  first : Nat
  last : Nat
  deriving DecidableEq, Repr

namespace Run

def contains (r : Run) (n : Nat) : Bool := r.first ≤ n && n ≤ r.last

/-- Adds a number to ascending runs, unless they contain it. It extends a run it is next to, and
joins two runs if it is all that is missing between them. -/
def insert? (n : Nat) : List Run → Option (List Run)
  | [] => some [⟨n, n⟩]
  | r :: rs =>
    if n + 1 < r.first then some (⟨n, n⟩ :: r :: rs)
    else if n + 1 = r.first then some (⟨n, r.last⟩ :: rs)
    else if n ≤ r.last then none
    else if n = r.last + 1 then
      match rs with
      | [] => some [⟨r.first, n⟩]
      | s :: ss =>
        if n + 1 = s.first then some (⟨r.first, s.last⟩ :: ss)
        else some (⟨r.first, n⟩ :: s :: ss)
    else (insert? n rs).map (r :: ·)

end Run

/-- The runs of each sender. Senders number their messages in a row, so there is one run as a
rule. -/
structure Delivered where
  runs : Table Proc (List Run) := []
  deriving DecidableEq, Repr

namespace Delivered

def runsOf (d : Delivered) (p : Proc) : List Run := (d.runs.get? p).getD []

def contains (d : Delivered) (i : MessageId) : Bool :=
  (d.runsOf i.sender).any (·.contains i.sequence)

/-- Adds a message, unless it is there already. -/
def insert? (d : Delivered) (i : MessageId) : Option Delivered :=
  (Run.insert? i.sequence (d.runsOf i.sender)).map fun rs => ⟨d.runs.put i.sender rs⟩

def insert (d : Delivered) (i : MessageId) : Delivered := (d.insert? i).getD d

/-- Drops all messages of a sender. -/
def forget (d : Delivered) (p : Proc) : Delivered := ⟨d.runs.erase p⟩

end Delivered

end Multicast
