/-! Reading and writing numbers. -/
namespace Multicast

/-! ### Decimal numbers -/

namespace Decimal

/-- The value of a run of ASCII digits, most significant first. -/
def value (ds : List Char) : Nat := ds.foldl (fun n d => 10 * n + (d.toNat - '0'.toNat)) 0

/-- The value of one or more ASCII digits; any other text is no number. -/
def digits? (cs : List Char) : Option Nat :=
  if cs ≠ [] ∧ cs.all Char.isDigit then some (value cs) else none

/-- A number up to `top`: digits after at most one plus sign. Leading zeros are allowed. -/
def read? (top : Nat) : List Char → Option Nat
  | '+' :: cs => (digits? cs).filter (· ≤ top)
  | cs => (digits? cs).filter (· ≤ top)

/-- The sign at the front, and what follows it. -/
def sign : List Char → Bool × List Char
  | '-' :: cs => (true, cs)
  | '+' :: cs => (false, cs)
  | cs => (false, cs)

def signed (negative : Bool) (n : Nat) : Int := if negative then -n else n

/-- A number with an optional sign before what `digits?` reads. -/
def signed? (digits? : List Char → Option Nat) (cs : List Char) : Option Int :=
  (digits? (sign cs).2).map (signed (sign cs).1)

/-- Digits times a power of ten, without an exponent and without zeros at the end behind the
point. -/
def positional (digits : Nat) (exponent : Int) : String :=
  let ds := Nat.toDigits 10 digits
  let places := (-exponent).toNat
  let ds := List.replicate (places + 1 - ds.length) '0' ++ ds ++ List.replicate exponent.toNat '0'
  let whole := ds.take (ds.length - places)
  let fraction := ((ds.drop (ds.length - places)).reverse.dropWhile (· = '0')).reverse
  String.ofList (if fraction = [] then whole else whole ++ '.' :: fraction)

end Decimal

/-! ### Numbers in other bases -/

namespace Numeral

/-- The value of a digit in a base up to sixteen. -/
def digit? (base : Nat) (c : Char) : Option Nat :=
  let value : Option Nat :=
    if c.isDigit then some (c.toNat - '0'.toNat)
    else if 'a' ≤ c ∧ c ≤ 'f' then some (c.toNat - 'a'.toNat + 10)
    else if 'A' ≤ c ∧ c ≤ 'F' then some (c.toNat - 'A'.toNat + 10)
    else none
  value.filter (· < base)

/-- The value of one or more digits, most significant first. -/
def read? (base : Nat) (cs : List Char) : Option Nat :=
  if cs = [] then none
  else cs.foldlM (fun n c => (digit? base c).map (base * n + ·)) 0

end Numeral

end Multicast
