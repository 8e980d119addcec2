import Multicast.Double.Basic
import Multicast.Table

/-! Trees of settings as a file or the environment gives them, laid over one another. -/
namespace Multicast

inductive Value where
  | absent
  | flag (b : Bool)
  | whole (n : Int)
  | double (x : Double)
  | text (s : String)
  | list (vs : List Value)
  | table (entries : List (String × Value))
  deriving Repr, Inhabited

namespace Value

/-- Whole numbers have 64 bits. -/
def whole? (n : Int) : Option Value :=
  if Int64.minValue.toInt ≤ n ∧ n ≤ Int64.maxValue.toInt then some (.whole n) else none

/-- The entries of a table. Any other value has none. -/
def entries : Value → Table String Value
  | .table es => es
  | _ => []

/-- The elements of a list. Any other value has none. -/
def elements : Value → List Value
  | .list vs => vs
  | _ => []

mutual

/-- Lays a tree over another: tables are merged key by key, any other value takes the place of
what was there. -/
def overlay (base : Value) : Value → Value
  | .table es => .table (overlayAll base.entries es)
  | v => v

def overlayAll (t : Table String Value) : List (String × Value) → Table String Value
  | [] => t
  | (key, v) :: es => overlayAll (t.put key (((t.get? key).getD .absent).overlay v)) es

end

end Value

end Multicast
