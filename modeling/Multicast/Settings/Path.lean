import Multicast.Settings.Value
import Multicast.Text.Decimal

/-! Where a key leads in a tree of settings. -/
namespace Multicast

/-- A step down a tree. -/
inductive Step where
  | key (name : String)
  /-- To an element of a list. A negative number counts from the end. -/
  | element (number : Int)
  deriving DecidableEq, Repr

namespace Step

def isNameChar (c : Char) : Bool := c.isAlphanum || c = '_' || c = '-'

def isBlank (c : Char) : Bool := c = ' ' || c = '\t'

/-- Takes a name off the front. -/
def name? (cs : List Char) : Option (String × List Char) :=
  match cs.span isNameChar with
  | ([], _) => none
  | (name, cs) => some (String.ofList name, cs)

/-- A number of 64 bits. -/
def number? (cs : List Char) : Option Int :=
  let n := match cs with
    | '-' :: cs => (Decimal.digits? cs).map fun n => -(n : Int)
    | cs => (Decimal.digits? cs).map Int.ofNat
  n.filter fun n => Int64.minValue.toInt ≤ n && n ≤ Int64.maxValue.toInt

/-- The steps behind the first: names after points, and numbers in brackets. -/
def more? : Nat → List Char → Option (List Step)
  | _, [] => some []
  | fuel + 1, '.' :: cs => do
    let (name, cs) ← name? cs
    return .key name :: (← more? fuel cs)
  | fuel + 1, '[' :: cs => do
    let (digits, cs) := (cs.dropWhile isBlank).span fun c => c = '-' || c.isDigit
    let n ← number? digits
    match cs.dropWhile isBlank with
    | ']' :: cs => return .element n :: (← more? fuel cs)
    | _ => none
  | _, _ => none

/-- The path that a key names. A key of another form is a plain name. -/
def path (key : String) : List Step :=
  let steps : Option (List Step) := do
    let (name, cs) ← name? key.toList
    return .key name :: (← more? cs.length cs)
  steps.getD [.key key]

end Step

namespace Value

/-- Makes a list long enough to have an element of this number, and tells where it is. -/
def reach (vs : List Value) (number : Int) : List Value × Nat :=
  if 0 ≤ number then
    (vs ++ List.replicate (number.toNat + 1 - vs.length) .absent, number.toNat)
  else
    let back := (-number).toNat
    (List.replicate (back - vs.length) .absent ++ vs, vs.length - back)

/-- Changes the value at a path. What is on the way becomes a table or a list, if it is none. -/
def update (f : Value → Value) : List Step → Value → Value
  | [], v => f v
  | .key name :: path, v =>
    let t := v.entries
    .table (t.put name (update f path ((t.get? name).getD .absent)))
  | .element number :: path, v =>
    let (vs, i) := reach v.elements number
    .list (vs.set i (update f path (vs[i]?.getD .absent)))

/-- Lays the values of a source over a tree, one after another. -/
def overlaySource (base : Value) (source : List (String × Value)) : Value :=
  source.foldl (fun tree (key, v) => tree.update (·.overlay v) (Step.path key)) base

end Value

end Multicast
