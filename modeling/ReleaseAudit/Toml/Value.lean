/-!
# TOML values and documents

A document is built statement by statement. Tables remember how they came
about, because that decides whether a later statement may add to them.
Fractions and dates have no value here: no setting takes one.
-/

namespace ReleaseAudit.Toml

set_option autoImplicit false

inductive Value where
  | boolean (value : Bool)
  | integer (value : Int)
  | string (value : String)
  | array (elements : List Value)
  | table (entries : List (String × Value))
deriving Repr

/-- How a table came into being. -/
inductive Origin where
  | header
  | implied
  | dotted
deriving DecidableEq, Repr

inductive Item where
  | value (value : Value)
  | table (origin : Origin) (entries : List (String × Item))
  /-- An array of tables, the last one first. -/
  | tables (elements : List (List (String × Item)))

abbrev Entries := List (String × Item)

namespace Item

def toValue : Item → Value
  | .value content => content
  | .table _ entries => .table (toValues entries)
  | .tables elements => .array (toTables elements).reverse
where
  toValues : List (String × Item) → List (String × Value)
    | [] => []
    | (key, item) :: rest => (key, toValue item) :: toValues rest
  toTables : List (List (String × Item)) → List Value
    | [] => []
    | entries :: rest => .table (toValues entries) :: toTables rest

end Item

namespace Entries

def put (key : String) (item : Item) : Entries → Entries
  | [] => [(key, item)]
  | (head, old) :: rest =>
      if head = key then (key, item) :: rest else (head, old) :: put key item rest

/-- Changes the table at the end of `path`. Missing tables on the way come into being with
`origin`; a dotted key may not enter a table that has a header. -/
def updateAt? (origin : Origin) (change : Option Origin → Entries → Option Entries) :
    (path : List String) → (reached : Option Origin) → Entries → Option Entries
  | [], reached, entries => change reached entries
  | key :: path, _, entries =>
      match entries.lookup key with
      | none => do
          let inner ← updateAt? origin change path (some origin) []
          some (put key (.table origin inner) entries)
      | some (.value _) => none
      | some (.table known inner) =>
          if origin = .dotted && known = .header then none
          else do
            let inner ← updateAt? origin change path (some known) inner
            some (put key (.table known inner) entries)
      | some (.tables []) => none
      | some (.tables (last :: earlier)) => do
          let last ← updateAt? origin change path (some .header) last
          some (put key (.tables (last :: earlier)) entries)

def openTable? (path : List String) (key : String) (entries : Entries) : Option Entries :=
  updateAt? .implied
    (fun _ parent =>
      match parent.lookup key with
      | none => some (put key (.table .header []) parent)
      | some (.table .implied inner) => some (put key (.table .header inner) parent)
      | some _ => none)
    path none entries

def openElement? (path : List String) (key : String) (entries : Entries) : Option Entries :=
  updateAt? .implied
    (fun _ parent =>
      match parent.lookup key with
      | none => some (put key (.tables [[]]) parent)
      | some (.tables elements) => some (put key (.tables ([] :: elements)) parent)
      | some _ => none)
    path none entries

/-- Adds a value under a possibly dotted key. A dotted key ends in a table that dotted keys
have made. -/
def assign? (path : List String) (key : String) (value : Value) (entries : Entries) :
    Option Entries :=
  updateAt? .dotted
    (fun reached inner =>
      if reached = none || reached = some .dotted then
        match inner.lookup key with
        | none => some (put key (.value value) inner)
        | some _ => none
      else none)
    path none entries

def assignUnder? (header path : List String) (key : String) (value : Value) (entries : Entries) :
    Option Entries :=
  updateAt? .implied (fun _ inner => assign? path key value inner) header none entries

end Entries

end ReleaseAudit.Toml
