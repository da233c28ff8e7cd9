import CallSchema.Settings.Value

/-!
Documents of TOML while they are read: which tables may still be added to.

* A table is defined once. One that only the header of an inner table has named can still get a
  header of its own, and one that dotted keys have made can still get further dotted keys.
* `Document.header?`, `Document.arrayHeader?` and `Document.keyValue?` take in one line each, and
  fail where it would define something twice.
-/

namespace CallSchema.Toml

open CallSchema.Settings (Value)

/-- How a table came to be. -/
inductive Origin where
  /-- It has a header, or is the whole document or an item of an array of tables. -/
  | header
  /-- The header of a table inside it names it. -/
  | implied
  /-- A dotted key names it. -/
  | dotted
deriving Repr, DecidableEq

/-- What a key of a document stands for. -/
inductive Item where
  | value (value : Value)
  | table (origin : Origin) (entries : List (String × Item))
  /-- An array of tables, the last one first. -/
  | tables (entries : List (List (String × Item)))
deriving Inhabited

/-- The entries of a table. -/
abbrev Table := List (String × Item)

namespace Item

mutual

/-- The value that an item stands for. -/
def toValue : Item → Value
  | value v => v
  | table _ entries => .table (entryValues entries)
  | tables all => .array (tableValues all).reverse
termination_by structural item => item

/-- The values of the entries of a table. -/
def entryValues : List (String × Item) → List (String × Value)
  | [] => []
  | entry :: rest => entryValue entry :: entryValues rest
termination_by structural entries => entries

/-- The value of an entry with its key. -/
def entryValue : String × Item → String × Value
  | (key, item) => (key, toValue item)
termination_by structural entry => entry

/-- The values of tables. -/
def tableValues : List (List (String × Item)) → List Value
  | [] => []
  | entries :: rest => .table (entryValues entries) :: tableValues rest
termination_by structural all => all

end

end Item

/-- Changes the table that a path of keys leads to, making the tables that are missing on the way;
    of an array of tables the last one is meant. A dotted path may not enter a table that has a
    header. -/
def update? (dotted : Bool) (change : Origin → Table → Option (Origin × Table)) :
    List String → Origin → Table → Option (Origin × Table)
  | [], origin, entries => change origin entries
  | key :: keys, origin, entries =>
    match entries.lookup key with
    | none => do
      let (inner, new) ← update? dotted change keys (if dotted then .dotted else .implied) []
      return (origin, upsert key (.table inner new) entries)
    | some (.value _) => none
    | some (.table inner old) =>
      if dotted ∧ inner = .header then none
      else do
        let (inner, new) ← update? dotted change keys inner old
        return (origin, upsert key (.table inner new) entries)
    | some (.tables []) => none
    | some (.tables (last :: before)) => do
      let (_, new) ← update? dotted change keys .header last
      return (origin, upsert key (.tables (new :: before)) entries)

/-- Adds a value under a dotted key, of which `last` is the last part. Nothing may have that key
    yet. -/
def insertValue? (keys : List String) (last : String) (value : Value) :
    Origin → Table → Option (Origin × Table) :=
  update? true (fun origin entries =>
    -- A table of dotted keys takes values from dotted keys only, any other table from plain ones.
    if (origin = .dotted ↔ keys = []) ∨ (entries.lookup last).isSome then none
    else some (origin, entries ++ [(last, .value value)])) keys

/-- The table that dotted keys and their values make. -/
def inlineTable? (members : List (List String × Value)) : Option Value := do
  let (_, entries) ← members.foldlM (fun (origin, entries) (keys, value) =>
    match keys.getLast? with
    | some last => insertValue? keys.dropLast last value origin entries
    | none => none) (Origin.header, [])
  return .table (Item.entryValues entries)

/-- A document up to some line. -/
structure Document where
  entries : Table := []
  /-- The table that the last header has opened. -/
  current : List String := []

namespace Document

/-- The document after a change of the table at a path. -/
def change? (d : Document) (path : List String)
    (change : Origin → Table → Option (Origin × Table)) : Option Document := do
  let (_, entries) ← update? false change path .header d.entries
  return { d with entries }

/-- The document after a key and its value. -/
def keyValue? (d : Document) (keys : List String) (value : Value) : Option Document := do
  let last ← keys.getLast?
  d.change? d.current (insertValue? keys.dropLast last value)

/-- The document after the header of a table. -/
def header? (d : Document) (path : List String) : Option Document := do
  let last ← path.getLast?
  let d ← d.change? path.dropLast fun origin entries =>
    match entries.lookup last with
    | none => some (origin, upsert last (.table .header []) entries)
    | some (.table .implied inner) => some (origin, upsert last (.table .header inner) entries)
    | _ => none
  return { d with current := path }

/-- The document after the header of an item of an array of tables. -/
def arrayHeader? (d : Document) (path : List String) : Option Document := do
  let last ← path.getLast?
  let d ← d.change? path.dropLast fun origin entries =>
    match entries.lookup last with
    | none => some (origin, upsert last (.tables [[]]) entries)
    | some (.tables all) => some (origin, upsert last (.tables ([] :: all)) entries)
    | _ => none
  return { d with current := path }

/-- The values of a whole document. -/
def values (d : Document) : List (String × Value) := Item.entryValues d.entries

end Document

end CallSchema.Toml
