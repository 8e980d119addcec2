import Multicast.Toml.Item
import Multicast.Toml.Number
import Multicast.Toml.Strings
import Multicast.Toml.Time

/-! The statements of a TOML text: table headers, and keys with their values. -/
namespace Multicast.Toml

inductive Statement where
  /-- `[path]` opens a table. -/
  | header (path : List String)
  /-- `[[path]]` opens the next table of a list. -/
  | item (path : List String)
  | assign (path : List String) (v : Value)
  deriving Repr

/-- How many keys a path may have, and how many levels deep values may be nested. -/
def maxDepth : Nat := 80

def isWordChar (c : Char) : Bool :=
  c.isAlphanum || c = '_' || c = '-' || c = '+' || c = '.' || c = ':'

/-- Takes a word. A blank may stand between a date and a time. -/
def splitWord (cs : List Char) : List Char × List Char :=
  let (w, rest) := cs.span isWordChar
  match rest with
  | ' ' :: d :: cs =>
    if Time.isDate w && d.isDigit then
      let (time, rest) := (d :: cs).span isWordChar
      (w ++ ' ' :: time, rest)
    else (w, rest)
  | _ => (w, rest)

/-- A truth value, a number, or a date or time, which counts as a text. -/
def word : Scanner Value := fun cs =>
  let (w, rest) := splitWord cs
  let v := if w = ['t', 'r', 'u', 'e'] then some (.flag true)
    else if w = ['f', 'a', 'l', 's', 'e'] then some (.flag false)
    else
      (((whole? w).or (fractional? w)).or (special? w)).or
        ((Time.read? w).map fun time => .text (String.ofList time))
  v.map (·, rest)

/-- A value that holds no others. -/
def plainValue : Scanner Value
  | '"' :: cs => (string ('"' :: cs)).map fun (s, cs) => (.text (String.ofList s), cs)
  | '\'' :: cs => (string ('\'' :: cs)).map fun (s, cs) => (.text (String.ofList s), cs)
  | cs => word cs

def isBareKeyChar (c : Char) : Bool := c.isAlphanum || c = '_' || c = '-'

def simpleKey : Scanner String
  | '"' :: cs => (basicString cs).map fun (s, cs) => (String.ofList s, cs)
  | '\'' :: cs => (literalString cs).map fun (s, cs) => (String.ofList s, cs)
  | cs =>
    let (key, rest) := cs.span isBareKeyChar
    if key = [] then none else some (String.ofList key, rest)

/-- A path of at most so many keys with points between them, and the blanks behind it. -/
def keyPath : Nat → Scanner (List String)
  | 0, _ => none
  | most + 1, cs => do
    let (key, cs) ← simpleKey (skipBlanks cs)
    match skipBlanks cs with
    | '.' :: cs =>
      let (path, cs) ← keyPath most cs
      return (key :: path, cs)
    | cs => return ([key], cs)

/-- A key and its value in a table within brackets. -/
def pair (value : Scanner Value) : Scanner (List String × Value) := fun cs => do
  let (path, cs) ← keyPath maxDepth cs
  match ← skipVoid? false cs with
  | '=' :: cs =>
    let (v, cs) ← value (← skipVoid? false cs)
    return ((path, v), cs)
  | _ => none

/-- A value with at most so many levels of others in it. -/
def value : Nat → Scanner Value
  | depth + 1, '[' :: cs =>
    (separated ']' (value depth) (cs.length + 1) cs).map fun (vs, cs) => (.list vs, cs)
  | depth + 1, '{' :: cs => do
    let (pairs, cs) ← separated '}' (pair (value depth)) (cs.length + 1) cs
    let t ← pairs.foldlM (fun t (path, v) => assign v path t) []
    return (.table (entriesToValues t), cs)
  | _, cs => plainValue cs

/-- One statement, without the end of its line. -/
def statement : Scanner Statement
  | '[' :: '[' :: cs => do
    let (path, cs) ← keyPath maxDepth cs
    match cs with
    | ']' :: ']' :: cs => return (.item path, cs)
    | _ => none
  | '[' :: cs => do
    let (path, cs) ← keyPath maxDepth cs
    match cs with
    | ']' :: cs => return (.header path, cs)
    | _ => none
  | cs => do
    let (path, cs) ← keyPath maxDepth cs
    match cs with
    | '=' :: cs =>
      let (v, cs) ← value maxDepth (skipBlanks cs)
      return (.assign path v, cs)
    | _ => none

/-- The statements of a text, one a line. -/
def statements? : Nat → List Char → Option (List Statement)
  | 0, _ => none
  | fuel + 1, cs =>
    match skipBlanks cs with
    | [] => some []
    | cs =>
      match lineEnd? cs with
      | some cs => statements? fuel cs
      | none => do
        let (s, cs) ← statement cs
        let cs ← lineEnd? cs
        return s :: (← statements? fuel cs)

end Multicast.Toml
