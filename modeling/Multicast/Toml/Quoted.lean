/-! Strings as TOML writes them. -/
namespace Multicast.Toml

/-- The most neighbouring occurrences of a character. -/
def longestRun (x : Char) (cs : List Char) : Nat := go 0 cs
where
  go (current : Nat) : List Char → Nat
    | [] => current
    | c :: cs => if c = x then go (current + 1) cs else max current (go 0 cs)

/-- A control character other than tabs and line ends. -/
def isControl (c : Char) : Bool := (c.toNat < 32 && c ≠ '\t' && c ≠ '\n') || c.toNat = 127

/-- Escapes what cannot stand in double quotes. In three of them, line ends can stand, and two
quotes together. -/
def escape (lines : Bool) (quotes : Nat) : List Char → List Char
  | [] => []
  | '"' :: cs =>
    if lines && quotes < 2 then '"' :: escape lines (quotes + 1) cs
    else '\\' :: '"' :: escape lines 0 cs
  | c :: cs =>
    let written : List Char := match c with
      | '\x08' => ['\\', 'b']
      | '\t' => ['\\', 't']
      | '\n' => if lines then ['\n'] else ['\\', 'n']
      | '\x0c' => ['\\', 'f']
      | '\r' => ['\\', 'r']
      | '\\' => ['\\', '\\']
      | c =>
        if c.toNat < 32 || c.toNat = 127 then
          ['\\', 'u', '0', '0'] ++ ((Nat.toDigits 16 (256 + c.toNat)).drop 1).map Char.toUpper
        else [c]
    written ++ escape lines 0 cs

/-- A quoted string: plain if possible, else in the first kind of quotes that needs no escapes. A
line end in it sets it off on lines of its own. -/
def quote (s : String) : String :=
  let cs := s.toList
  let controls := cs.any isControl
  let escapes := controls || '\\' ∈ cs
  let lines := '\n' ∈ cs
  let doubles := longestRun '"' cs
  let singles := longestRun '\'' cs
  let opening : String := if lines then "\n" else ""
  let basic (k : String) (three : Bool) : String :=
    k ++ (if three then opening else "") ++ String.ofList (escape three 0 cs) ++ k
  if !escapes && doubles = 0 && !lines then basic "\"" false
  else if !controls && singles = 0 && !lines then "'" ++ s ++ "'"
  else if !escapes && doubles ≤ 2 then basic "\"\"\"" true
  else if !controls && singles ≤ 2 then "'''" ++ opening ++ s ++ "'''"
  else if lines then basic "\"\"\"" true
  else basic "\"" false

end Multicast.Toml
