import CallSchema.Entries

/-!
Values of settings, as files and environment variables give them.

* `Value.merge` lays one value over another: tables are merged key by key, and any other value
  takes the place of what it covers (`lookup_mergeEntries`).
-/

namespace CallSchema.Settings

/-- A value of a setting. -/
inductive Value where
  | bool (value : Bool)
  /-- A number, as its text. -/
  | number (text : String)
  | string (value : String)
  /-- A date, a time of day or both, as its text. -/
  | date (text : String)
  | array (items : List Value)
  /-- Named values, each name once. -/
  | table (entries : List (String × Value))
deriving Repr, Inhabited

namespace Value

/-- The entries of a table. A date counts as a table of no settings. -/
def entries? : Value → Option (List (String × Value))
  | table entries => some entries
  | date _ => some []
  | _ => none

mutual

/-- The value `new` laid over `old`. -/
def merge (old : Value) : Value → Value
  | table entries => table (mergeEntries (old.entries?.getD []) entries)
  | date text => if old.entries?.isSome then old else date text
  | array items => array items
  | bool value => bool value
  | number text => number text
  | string value => string value
termination_by structural new => new

/-- The entries of a table after others were laid over them, one after another. -/
def mergeEntries (old : List (String × Value)) : List (String × Value) → List (String × Value)
  | [] => old
  | entry :: rest => mergeEntries (mergeEntry old entry) rest
termination_by structural new => new

/-- The entries of a table after one was laid over them. -/
def mergeEntry (old : List (String × Value)) : String × Value → List (String × Value)
  | (key, new) =>
    match old.lookup key with
    | some value => upsert key (merge value new) old
    | none => upsert key new old
termination_by structural new => new

end

/-- What an entry is after one was laid over the table. -/
theorem lookup_mergeEntry (old : List (String × Value)) (key other : String) (new : Value) :
    (mergeEntry old (key, new)).lookup other =
      if other = key then some ((old.lookup key).elim new (merge · new)) else old.lookup other := by
  simp only [mergeEntry]
  by_cases h : other = key
  · subst h
    cases hl : old.lookup other <;> simp [lookup_upsert_self]
  · cases hl : old.lookup key <;> simp [lookup_upsert_of_ne _ _ h, h]

/-- What an entry is after a table with unique names was laid over another. -/
theorem lookup_mergeEntries (old new : List (String × Value)) (h : (new.map Prod.fst).Nodup)
    (key : String) :
    (mergeEntries old new).lookup key =
      match new.lookup key with
      | some value => some ((old.lookup key).elim value (merge · value))
      | none => old.lookup key := by
  induction new generalizing old with
  | nil => rfl
  | cons entry rest ih =>
    obtain ⟨name, value⟩ := entry
    simp only [List.map_cons, List.nodup_cons] at h
    rw [mergeEntries, ih _ h.2, lookup_mergeEntry]
    by_cases hk : key = name
    · subst hk
      have hr : rest.lookup key = none := by
        rw [List.lookup_eq_none_iff]
        intro p hp
        have hne : key ≠ p.1 := fun e => h.1 (List.mem_map.2 ⟨p, hp, e.symm⟩)
        simpa using hne
      simp [hr]
    · have hb : (key == name) = false := by simpa using hk
      simp [List.lookup_cons, hb, hk]

end Value

end CallSchema.Settings
