/-! Finite maps as lists of keys with their values. -/
namespace Multicast

abbrev Table (α β : Type) := List (α × β)

namespace Table

variable {α β : Type} [DecidableEq α]

def get? (t : Table α β) (k : α) : Option β := (t.find? (·.1 = k)).map (·.2)

def has (t : Table α β) (k : α) : Bool := t.any (·.1 = k)

def keys (t : Table α β) : List α := t.map (·.1)

def erase (t : Table α β) (k : α) : Table α β := t.filter (·.1 ≠ k)

/-- Gives `k` the value `v`, in the place of its old entry if there is one. -/
def put (t : Table α β) (k : α) (v : β) : Table α β :=
  match t with
  | [] => [(k, v)]
  | e :: es => if e.1 = k then (k, v) :: es else e :: put es k v

/-- Gives `k` the value `v` unless it has one. -/
def putNew (t : Table α β) (k : α) (v : β) : Table α β := if t.has k then t else t ++ [(k, v)]

end Table

end Multicast
