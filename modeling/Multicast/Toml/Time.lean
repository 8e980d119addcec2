import Multicast.Text.Decimal

/-! Dates and times in TOML texts, each in one form. -/
namespace Multicast.Toml.Time

def inRange (low high : Nat) (digits : List Char) : Bool :=
  match Decimal.digits? digits with
  | some n => low ≤ n && n ≤ high
  | none => false

def daysIn (year month : Nat) : Nat :=
  if month = 2 then
    if year % 4 = 0 ∧ (year % 100 ≠ 0 ∨ year % 400 = 0) then 29 else 28
  else if month ∈ [4, 6, 9, 11] then 30
  else 31

/-- Whether a text is the year, the month and the day of a date. -/
def isDate : List Char → Bool
  | [a, b, c, d, '-', e, f, '-', g, h] =>
    inRange 0 9999 [a, b, c, d] && inRange 1 12 [e, f] &&
      inRange 1 (daysIn (Decimal.value [a, b, c, d]) (Decimal.value [e, f])) [g, h]
  | _ => false

/-- A point and the digits of a second to nine places, without zeros at the end. -/
def fraction? : List Char → Option (List Char × List Char)
  | '.' :: cs =>
    let (digits, cs) := cs.span Char.isDigit
    if digits = [] then none
    else
      match (digits.take 9).reverse.dropWhile (· = '0') with
      | [] => some (['.', '0'], cs)
      | ds => some ('.' :: ds.reverse, cs)
  | cs => some ([], cs)

/-- The seconds of a time, which may be left out, and their fraction. -/
def seconds? : List Char → Option (List Char × List Char)
  | ':' :: a :: b :: cs => do
    if !inRange 0 60 [a, b] then none
    let (digits, cs) ← fraction? cs
    return (':' :: a :: b :: digits, cs)
  | cs => some ([], cs)

/-- The distance from the time of the zero meridian. It is never less than no distance. -/
def zone? : List Char → Option (List Char)
  | ['Z'] | ['z'] => some ['Z']
  | [s, a, b, ':', c, d] =>
    if (s = '+' || s = '-') && inRange 0 23 [a, b] && inRange 0 59 [c, d] then
      some ((if [a, b, c, d].all (· = '0') then '+' else s) :: [a, b, ':', c, d])
    else none
  | _ => none

/-- A time of day, with a zone if it is `zoned`. -/
def clock? (zoned : Bool) : List Char → Option (List Char)
  | a :: b :: ':' :: c :: d :: cs => do
    if !(inRange 0 23 [a, b] && inRange 0 59 [c, d]) then none
    let (seconds, cs) ← seconds? cs
    let zone ← if cs = [] then some [] else if zoned then zone? cs else none
    return [a, b, ':', c, d] ++ seconds ++ zone
  | _ => none

/-- A date, a time, or both. -/
def read? (cs : List Char) : Option (List Char) :=
  let date := cs.take 10
  if isDate date then
    match cs.drop 10 with
    | [] => some date
    | separator :: time =>
      if separator ∈ ['T', 't', ' '] then (clock? true time).map (date ++ 'T' :: ·) else none
  else clock? false cs

end Multicast.Toml.Time
