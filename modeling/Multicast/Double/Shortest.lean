import Multicast.Double.Basic
import Multicast.Text.Decimal

/-! The decimal text of a number: of those that are read as this number it has the fewest digits,
and of these it is the nearest one. -/
namespace Multicast.Double

/-- Compares `a * 10 ^ i` with `b * 2 ^ j`. -/
def compareScaled (a : Nat) (i : Int) (b : Nat) (j : Int) : Ordering :=
  let (an, ad) := scaled a 10 i
  let (bn, bd) := scaled b 2 j
  compare (an * bd) (bn * ad)

/-- Whether a decimal is read as the number. It is from halfway to the number below to halfway to
the one above, and the ends belong to an even mantissa. Below a power of two the numbers are twice
as dense. -/
def readsBack (mantissa : Nat) (exponent : Int) (digits : Nat) (place : Int) : Bool :=
  let below := if mantissa = leastFull ∧ leastExponent < exponent then 1 else 2
  let low := compareScaled digits place (4 * mantissa - below) (exponent - 2)
  let high := compareScaled digits place (4 * mantissa + 2) (exponent - 2)
  if mantissa % 2 = 0 then low.isGE && high.isLE else low.isGT && high.isLT

/-- The decimal without digits behind a place that is read as the number, the nearest one of two and
the greater one at the same distance. -/
def atPlace? (mantissa : Nat) (exponent place : Int) : Option Nat :=
  let (num, den) := scaled mantissa 2 exponent
  let (up, down) := scaled 1 10 place
  let num := num * down
  let den := den * up
  let q := num / den
  match readsBack mantissa exponent q place, readsBack mantissa exponent (q + 1) place with
  | true, true => some (if 2 * (num % den) < den then q else q + 1)
  | true, false => some q
  | false, true => some (q + 1)
  | false, false => none

/-- How many places left of the point a positive number begins. No number is so small that it
disappears when the point moves by 340 places. -/
def places (mantissa : Nat) (exponent : Int) : Int :=
  let (num, den) := scaled mantissa 2 exponent
  (Nat.toDigits 10 (num * Nat.pow 10 340 / den)).length - 340

/-- Digits and the place of the last one. Seventeen digits always suffice, and the number is a
decimal itself. -/
def shortest (mantissa : Nat) (exponent : Int) : Nat × Int :=
  let begin := places mantissa exponent
  let tries := (List.range 17).map fun (n : Nat) => begin - 1 - n
  match tries.findSome? fun place => (atPlace? mantissa exponent place).map (·, place) with
  | some found => found
  | none => ((scaled mantissa 2 exponent).1 * Nat.pow 5 (-exponent).toNat, min 0 exponent)

def text : Double → String
  | finite negative m e =>
    let (digits, place) := if m = 0 then (0, 0) else shortest m e
    (if negative then "-" else "") ++ Decimal.positional digits place
  | infinite negative => if negative then "-inf" else "inf"
  | notANumber => "NaN"

end Multicast.Double
