/-! Queues of bounded length. -/
namespace Multicast

structure BoundedQueue (α : Type) where
  capacity : Nat
  /-- Oldest first. -/
  items : List α := []
  capacity_pos : 0 < capacity
  length_le : items.length ≤ capacity := by simp
  deriving DecidableEq, Repr

namespace BoundedQueue

variable {α : Type}

/-- A queue that can hold nothing is none. -/
def empty? (capacity : Nat) : Option (BoundedQueue α) :=
  if h : 0 < capacity then some { capacity, capacity_pos := h } else none

def isEmpty (q : BoundedQueue α) : Bool := q.items.isEmpty

/-- Adds an element at the end, unless the queue is full. -/
def push? (q : BoundedQueue α) (a : α) : Option (BoundedQueue α) :=
  if h : q.items.length < q.capacity then
    some { q with
      items := q.items ++ [a]
      length_le := by rw [List.length_append, List.length_singleton]; exact h }
  else none

/-- Takes at most `n` elements off the front. -/
def popBatch (q : BoundedQueue α) (n : Nat) : List α × BoundedQueue α :=
  (q.items.take n,
    { q with
      items := q.items.drop n
      length_le := by rw [List.length_drop]; exact Nat.le_trans (Nat.sub_le _ _) q.length_le })

/-- Takes all elements. -/
def drain (q : BoundedQueue α) : List α × BoundedQueue α :=
  (q.items, { q with items := [], length_le := Nat.zero_le _ })

end BoundedQueue

end Multicast
