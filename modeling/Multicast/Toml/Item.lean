import Multicast.Settings.Value

/-! Tables of a TOML text while they are filled. No key gets two values, and no table is opened
twice. -/
namespace Multicast.Toml

/-- How a table came to be. -/
inductive TableKind where
  /-- On the way to a table that was opened. -/
  | implied
  | opened
  /-- On the path of a key. -/
  | dotted
  deriving DecidableEq, Repr

inductive Item where
  | value (v : Value)
  | table (kind : TableKind) (entries : List (String × Item))
  | tables (items : List (List (String × Item)))
  deriving Repr, Inhabited

abbrev Entries := Table String Item

/-- Changes the table at a path. Tables on the way are made as needed; of a list of tables, the
last is taken. -/
def within (f : Entries → Option Entries) : List String → Entries → Option Entries
  | [], t => f t
  | key :: path, t => do
    let item ← match t.get? key with
      | none => (within f path []).map (.table .implied)
      | some (.table kind es) => (within f path es).map (.table kind)
      | some (.tables items) => do
        let last ← items.getLast?
        let last ← within f path last
        some (.tables (items.dropLast ++ [last]))
      | some (.value _) => none
    return t.put key item

/-- Opens the table of this name. -/
def openTable (key : String) (t : Entries) : Option Entries :=
  match t.get? key with
  | none => some (t.put key (.table .opened []))
  | some (.table .implied es) => some (t.put key (.table .opened es))
  | some _ => none

/-- Adds a table to the list of this name. -/
def openItem (key : String) (t : Entries) : Option Entries :=
  match t.get? key with
  | none => some (t.put key (.tables [[]]))
  | some (.tables items) => some (t.put key (.tables (items ++ [[]])))
  | some _ => none

/-- Gives a key its value. Its path may not lead through a table that was opened, and the table it
ends in counts as one on the path of a key from then on. -/
def assign (v : Value) : List String → Entries → Option Entries
  | [], _ => none
  | [key], t => if t.has key then none else some (t.put key (.value v))
  | key :: next :: path, t => do
    let kind (k : TableKind) : TableKind := if path = [] then .dotted else k
    let item ← match t.get? key with
      | none => (assign v (next :: path) []).map (.table .dotted)
      | some (.table .opened _) => none
      | some (.table k es) => (assign v (next :: path) es).map (.table (kind k))
      | some (.tables items) =>
        if path = [] then none
        else do
          let last ← items.getLast?
          let last ← assign v (next :: path) last
          some (.tables (items.dropLast ++ [last]))
      | some (.value _) => none
    return t.put key item

mutual

def Item.toValue : Item → Value
  | .value v => v
  | .table _ es => .table (entriesToValues es)
  | .tables items => .list (itemsToValues items)

def entriesToValues : List (String × Item) → List (String × Value)
  | [] => []
  | (key, item) :: es => (key, item.toValue) :: entriesToValues es

def itemsToValues : List (List (String × Item)) → List Value
  | [] => []
  | es :: items => .table (entriesToValues es) :: itemsToValues items

end

end Multicast.Toml
