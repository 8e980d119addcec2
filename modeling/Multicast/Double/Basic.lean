/-! Numbers as 64 bits hold them in binary, and what they are nearest to. -/
namespace Multicast

inductive Double where
  /-- A mantissa of at most 53 binary digits, times a power of two. -/
  | finite (negative : Bool) (mantissa : Nat) (exponent : Int)
  | infinite (negative : Bool)
  | notANumber
  deriving DecidableEq, Repr, Inhabited

namespace Double

/-- The least mantissa of 53 digits. The double of it is the least one of 54. -/
def leastFull : Nat := 1 <<< 52

/-- The exponent of all numbers with fewer digits. -/
def leastExponent : Int := -1074

def greatestExponent : Int := 971

/-- A number times a power, as numerator and denominator. -/
def scaled (n base : Nat) (exponent : Int) : Nat × Nat :=
  (n * Nat.pow base exponent.toNat, Nat.pow base (-exponent).toNat)

/-- A quotient divided by a power of two. -/
def perUnit (num den : Nat) (exponent : Int) : Nat × Nat :=
  let (up, down) := scaled 1 2 exponent
  (num * down, den * up)

/-- The nearest natural number to a quotient, an even one of two. -/
def nearest (num den : Nat) : Nat :=
  let q := num / den
  let r := num % den
  if den < 2 * r ∨ (den = 2 * r ∧ q % 2 = 1) then q + 1 else q

/-- The exponent for which the mantissa of a positive quotient has 53 digits, or the least one. The
logarithms tell it up to one. -/
def exponentFor (num den : Nat) : Int :=
  let e : Int := num.log2 - den.log2 - 53
  let (n, d) := perUnit num den e
  max leastExponent (if n / d < 2 * leastFull then e else e + 1)

/-- The nearest number to a positive quotient. -/
def ofQuotient (negative : Bool) (num den : Nat) : Double :=
  let e := exponentFor num den
  let (n, d) := perUnit num den e
  let m := nearest n d
  let (m, e) := if m = 2 * leastFull then (leastFull, e + 1) else (m, e)
  if greatestExponent < e then .infinite negative else .finite negative m e

/-- The nearest number to a mantissa times a power of ten. Beyond 330 places no number is left, and
beyond 310 all are infinite. -/
def ofDecimal (negative : Bool) (mantissa : Nat) (exponent : Int) : Double :=
  let magnitude := exponent + (Nat.toDigits 10 mantissa).length
  if mantissa = 0 ∨ magnitude < -330 then .finite negative 0 leastExponent
  else if 310 < magnitude then .infinite negative
  else
    let (num, den) := scaled mantissa 10 exponent
    ofQuotient negative num den

/-- The nearest natural number up to `top`. Halves are rounded up, and negative numbers to zero. -/
def toNat (top : Nat) : Double → Nat
  | finite false m e =>
    let (num, den) := scaled m 2 e
    min top ((2 * num + den) / (2 * den))
  | infinite false => top
  | _ => 0

def isZero : Double → Bool
  | finite _ m _ => m = 0
  | _ => false

end Double

end Multicast
