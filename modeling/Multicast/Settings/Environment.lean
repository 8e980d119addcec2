import Multicast.Settings.Value
import Multicast.Text.Decimal
import Multicast.Text.Lowercase
import Multicast.Text.Split

/-! Settings from environment variables. A variable is named by a common word, a section and a
key: `WORD_SECTION__KEY`, in any case. -/
namespace Multicast

abbrev Environment := List (String × String)

namespace Environment

/-- A double underscore separates the section from the key. -/
def points : List Char → List Char
  | '_' :: '_' :: cs => '.' :: points cs
  | c :: cs => c :: points cs
  | [] => []

/-- The key that a variable sets. -/
def key? (word name : String) : Option String :=
  let start := Lowercase.lower (word.toList ++ ['_'])
  let name := Lowercase.lower name.toList
  if start.isPrefixOf name then some (String.ofList (points (name.drop start.length))) else none

/-- A whole number of 64 bits. -/
def whole? (cs : List Char) : Option Value := do
  let n ← Decimal.signed? Decimal.digits? cs
  Value.whole? n

/-- A number that is no whole number of 64 bits. -/
def decimal? (cs : List Char) : Option Value := do
  let (negative, cs) := Decimal.sign cs
  let (mantissa, exponent) := cs.span fun c => c ≠ 'e' && c ≠ 'E'
  let (whole, fraction) := mantissa.span (· ≠ '.')
  let m ← Decimal.digits? (whole ++ fraction.drop 1)
  let e ← match exponent with
    | [] => some 0
    | _ :: exponent => Decimal.signed? Decimal.digits? exponent
  return .double (.ofDecimal negative m (e - (fraction.length - 1 : Nat)))

/-- The numbers that have no digits. -/
def special? (cs : List Char) : Option Value :=
  let (negative, cs) := Decimal.sign cs
  if cs = "inf".toList ∨ cs = "infinity".toList then some (.double (.infinite negative))
  else if cs = "nan".toList then some (.double .notANumber)
  else none

/-- The keys whose values are lists. -/
def listKeys : List String := ["group.members"]

/-- What a text stands for: a truth value or a number if it reads as one, and a list at commas if
the key takes lists. -/
def value (key text : String) : Value :=
  let cs := text.toList.map Char.toLower
  if cs = "true".toList then .flag true
  else if cs = "false".toList then .flag false
  else
    match ((whole? cs).or (decimal? cs)).or (special? cs) with
    | some v => v
    | none =>
      if key ∈ listKeys then
        .list ((Split.pieces ',' text.toList).map fun part => .text (String.ofList part))
      else .text text

/-- The values that the variables of a word set. -/
def values (word : String) (e : Environment) : List (String × Value) :=
  e.filterMap fun (name, text) => (key? word name).map fun key => (key, value key text)

end Environment

end Multicast
