import Multicast.Settings.Value
import Multicast.Text.Decimal

/-! Numbers in TOML texts. -/
namespace Multicast.Toml

/-- Digits without the underscores between them. -/
def plain? (cs : List Char) : Option (List Char) :=
  if cs.head? = some '_' || cs.getLast? = some '_' || ('_', '_') ∈ cs.zip (cs.drop 1) then none
  else some (cs.filter (· ≠ '_'))

/-- The value of digits in a base, with underscores between them. -/
def digits? (base : Nat) (cs : List Char) : Option Nat := (plain? cs).bind (Numeral.read? base)

/-- Digits without a leading zero, unless it stands alone. -/
def decimal? (cs : List Char) : Option Nat :=
  if cs.length = 1 || cs.head? ≠ some '0' then digits? 10 cs else none

/-- A whole number of 64 bits. Only decimal ones may have a sign. -/
def whole? (cs : List Char) : Option Value := do
  let n ← match cs with
    | '0' :: 'x' :: cs => (digits? 16 cs).map Int.ofNat
    | '0' :: 'o' :: cs => (digits? 8 cs).map Int.ofNat
    | '0' :: 'b' :: cs => (digits? 2 cs).map Int.ofNat
    | cs => Decimal.signed? decimal? cs
  Value.whole? n

/-- A number with a fraction, an exponent or both, which must not be too large. -/
def fractional? (cs : List Char) : Option Value := do
  let (negative, cs) := Decimal.sign cs
  let (mantissa, exponent) := cs.span fun c => c ≠ 'e' && c ≠ 'E'
  let (whole, fraction) := mantissa.span (· ≠ '.')
  if exponent = [] && fraction = [] then none
  let n ← decimal? whole
  let (m, places) ← match fraction with
    | [] => some (n, 0)
    | _ :: fraction => do
      let d ← digits? 10 fraction
      let places := (fraction.filter (· ≠ '_')).length
      some (n * Nat.pow 10 places + d, places)
  let e ← match exponent with
    | [] => some 0
    | _ :: exponent => Decimal.signed? (digits? 10) exponent
  match Double.ofDecimal negative m (e - places) with
  | .infinite _ => none
  | x => some (.double x)

/-- The numbers that have no digits. -/
def special? (cs : List Char) : Option Value :=
  let (negative, cs) := Decimal.sign cs
  if cs = ['i', 'n', 'f'] then some (.double (.infinite negative))
  else if cs = ['n', 'a', 'n'] then some (.double .notANumber)
  else none

end Multicast.Toml
