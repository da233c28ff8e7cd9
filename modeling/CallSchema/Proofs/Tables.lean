import CallSchema.Settings

/-!
Names in tables of settings.

1. `Value.Distinct v`: every table in `v`, at whatever depth, has each name once. It is kept when
   one value is laid over another (`Value.Distinct.merge`, `named_mergeEntries`).
2. What a document of TOML gives is such a table (`Toml.read?_distinct`): a second definition of a
   name is refused, in dotted keys, headers and inline tables alike.
3. What a variable gives is such a value (`Variable.distinct_value`): of several entries of one name
   the last counts.

This is what lets a name in a table be looked up in place of walking through its entries.
-/

namespace CallSchema

/-! ## Entries with distinct names -/

/-- Each name stands once, and what it names is as wanted. -/
structure Named {α : Type} (P : α → Prop) (entries : List (String × α)) : Prop where
  nodup : (entries.map Prod.fst).Nodup
  all : ∀ entry ∈ entries, P entry.2

namespace Named

variable {α : Type} {P : α → Prop} {entries : List (String × α)} {key : String} {value : α}

theorem nil : Named P [] := ⟨List.nodup_nil, by simp⟩

theorem of_lookup (h : Named P entries) (hl : entries.lookup key = some value) : P value := by
  obtain ⟨before, after, rfl, -⟩ := List.lookup_eq_some_iff.mp hl
  exact h.all (key, value) (by simp)

theorem upsert (h : Named P entries) (hv : P value) : Named P (upsert key value entries) where
  nodup := nodup_map_fst_upsert h.nodup
  all entry he := by
    rcases eq_or_mem_of_mem_upsert he with rfl | he
    · exact hv
    · exact h.all entry he

theorem notMem_of_lookup (hl : entries.lookup key = none) : key ∉ entries.map Prod.fst := by
  intro hm
  obtain ⟨entry, he, rfl⟩ := List.mem_map.mp hm
  simpa using List.lookup_eq_none_iff.mp hl entry he

theorem concat (h : Named P entries) (hl : entries.lookup key = none) (hv : P value) :
    Named P (entries ++ [(key, value)]) := by
  rw [← upsert_of_notMem value (notMem_of_lookup hl)]
  exact h.upsert hv

theorem cons (h : Named P entries) (hl : entries.lookup key = none) (hv : P value) :
    Named P ((key, value) :: entries) :=
  ⟨List.nodup_cons.mpr ⟨notMem_of_lookup hl, h.nodup⟩, List.forall_mem_cons.mpr ⟨hv, h.all⟩⟩

end Named

namespace Settings.Value

/-- Every table in the value has each name once. -/
inductive Distinct : Value → Prop
  | bool (b : Bool) : Distinct (.bool b)
  | number (text : String) : Distinct (.number text)
  | string (text : String) : Distinct (.string text)
  | date (text : String) : Distinct (.date text)
  | array {items : List Value} (h : ∀ item ∈ items, Distinct item) : Distinct (.array items)
  | table {entries : List (String × Value)} (nodup : (entries.map Prod.fst).Nodup)
      (h : ∀ entry ∈ entries, Distinct entry.2) : Distinct (.table entries)

theorem distinct_table {entries : List (String × Value)} :
    Distinct (.table entries) ↔ Named Distinct entries :=
  ⟨fun | .table nodup h => ⟨nodup, h⟩, fun h => .table h.nodup h.all⟩

/-- The entries that a value counts as have distinct names. -/
theorem Distinct.named {v : Value} (h : v.Distinct) : Named Distinct (v.entries?.getD []) := by
  cases h with
  | table nodup h => exact ⟨nodup, h⟩
  | _ => exact .nil

/-! ## One value over another -/

theorem named_mergeEntry {old : List (String × Value)} {key : String} {new : Value}
    (ho : Named Distinct old) (hn : new.Distinct)
    (hm : ∀ v : Value, v.Distinct → (merge v new).Distinct) :
    Named Distinct (mergeEntry old (key, new)) := by
  rw [mergeEntry]
  cases hl : old.lookup key with
  | some v => exact ho.upsert (hm v (ho.of_lookup hl))
  | none => exact ho.upsert hn

/-- Entries laid over others one after another, where each alone keeps names distinct. -/
theorem named_mergeEntries_of {old new : List (String × Value)} (ho : Named Distinct old)
    (hn : ∀ entry ∈ new, entry.2.Distinct)
    (hm : ∀ entry ∈ new, ∀ v : Value, v.Distinct → (merge v entry.2).Distinct) :
    Named Distinct (mergeEntries old new) := by
  induction new generalizing old with
  | nil => exact ho
  | cons entry rest ih =>
    rw [List.forall_mem_cons] at hn hm
    exact ih (named_mergeEntry ho hn.1 hm.1) hn.2 hm.2

theorem Distinct.merge {old new : Value} (ho : old.Distinct) (hn : new.Distinct) :
    (merge old new).Distinct := by
  induction hn generalizing old with
  | table nodup h ih =>
    rw [Value.merge, distinct_table]
    exact named_mergeEntries_of ho.named h fun entry he v hv => ih entry he hv
  | date text =>
    rw [Value.merge]
    split
    · exact ho
    · exact .date text
  | array h => exact .array h
  | bool b => exact .bool b
  | number text => exact .number text
  | string text => exact .string text

theorem named_mergeEntries {old new : List (String × Value)} (ho : Named Distinct old)
    (hn : Named Distinct new) : Named Distinct (mergeEntries old new) :=
  named_mergeEntries_of ho hn.all fun entry he _ hv => hv.merge (hn.all entry he)

end Settings.Value

/-! ## Documents of TOML -/

namespace Toml

open Settings (Value)

/-- Every table in what a key stands for has each name once. -/
inductive Item.Distinct : Item → Prop
  | value {v : Value} (h : v.Distinct) : Distinct (.value v)
  | table {origin : Origin} {entries : Table} (nodup : (entries.map Prod.fst).Nodup)
      (h : ∀ entry ∈ entries, Distinct entry.2) : Distinct (.table origin entries)
  | tables {all : List Table} (nodup : ∀ entries ∈ all, (entries.map Prod.fst).Nodup)
      (h : ∀ entries ∈ all, ∀ entry ∈ entries, Distinct entry.2) : Distinct (.tables all)

namespace Item

theorem distinct_table {origin : Origin} {entries : Table} :
    Distinct (.table origin entries) ↔ Named Distinct entries :=
  ⟨fun | .table nodup h => ⟨nodup, h⟩, fun h => .table h.nodup h.all⟩

theorem distinct_tables {all : List Table} :
    Distinct (.tables all) ↔ ∀ entries ∈ all, Named Distinct entries :=
  ⟨fun | .tables nodup h => fun entries he => ⟨nodup entries he, h entries he⟩,
    fun h => .tables (fun entries he => (h entries he).nodup) fun entries he => (h entries he).all⟩

theorem entryValues_eq_map (entries : Table) :
    entryValues entries = entries.map fun entry => (entry.1, entry.2.toValue) := by
  induction entries with
  | nil => rfl
  | cons entry rest ih => rw [entryValues, ih, entryValue, List.map_cons]

theorem tableValues_eq_map (all : List Table) :
    tableValues all = all.map fun entries => .table (entryValues entries) := by
  induction all with
  | nil => rfl
  | cons entries rest ih => rw [tableValues, ih, List.map_cons]

theorem named_entryValues_of {entries : Table} (nodup : (entries.map Prod.fst).Nodup)
    (h : ∀ entry ∈ entries, entry.2.toValue.Distinct) :
    Named Value.Distinct (entryValues entries) := by
  rw [entryValues_eq_map]
  refine ⟨by simpa [List.map_map, Function.comp_def] using nodup, ?_⟩
  intro _ hv
  obtain ⟨entry, he, rfl⟩ := List.mem_map.mp hv
  exact h entry he

theorem Distinct.toValue {item : Item} (h : item.Distinct) : item.toValue.Distinct := by
  induction h with
  | value h => exact h
  | table nodup _ ih =>
    rw [Item.toValue, Value.distinct_table]
    exact named_entryValues_of nodup ih
  | tables nodup _ ih =>
    rw [Item.toValue, tableValues_eq_map]
    refine .array fun v hv => ?_
    obtain ⟨entries, he, rfl⟩ := List.mem_map.mp (List.mem_reverse.mp hv)
    exact Value.distinct_table.mpr (named_entryValues_of (nodup entries he) (ih entries he))

theorem named_entryValues {entries : Table} (h : Named Distinct entries) :
    Named Value.Distinct (entryValues entries) :=
  named_entryValues_of h.nodup fun entry he => (h.all entry he).toValue

end Item

/-- A change of a table that keeps names distinct. -/
def KeepsNames (change : Origin → Table → Option (Origin × Table)) : Prop :=
  ∀ {origin origin' entries entries'}, Named Item.Distinct entries →
    change origin entries = some (origin', entries') → Named Item.Distinct entries'

/-- If a change keeps names distinct in one table, so it does at the end of a path. -/
theorem KeepsNames.update? {dotted : Bool} {change : Origin → Table → Option (Origin × Table)}
    (hc : KeepsNames change) (keys : List String) : KeepsNames (update? dotted change keys) := by
  induction keys with
  | nil => exact hc
  | cons key keys ih =>
    intro origin origin' entries entries' hd h
    rw [Toml.update?] at h
    split at h
    · obtain ⟨⟨inner, new⟩, hu, ⟨⟩⟩ := Option.bind_eq_some_iff.mp h
      exact hd.upsert (Item.distinct_table.mpr (ih .nil hu))
    · cases h
    · rename_i hl
      split at h
      · cases h
      · obtain ⟨⟨inner, new⟩, hu, ⟨⟩⟩ := Option.bind_eq_some_iff.mp h
        exact hd.upsert (Item.distinct_table.mpr
          (ih (Item.distinct_table.mp (hd.of_lookup hl)) hu))
    · cases h
    · rename_i hl
      have hall := Item.distinct_tables.mp (hd.of_lookup hl)
      rw [List.forall_mem_cons] at hall
      obtain ⟨⟨inner, new⟩, hu, ⟨⟩⟩ := Option.bind_eq_some_iff.mp h
      exact hd.upsert (Item.distinct_tables.mpr
        (List.forall_mem_cons.mpr ⟨ih hall.1 hu, hall.2⟩))

theorem keepsNames_insertValue? (keys : List String) (last : String) {v : Value}
    (hv : v.Distinct) : KeepsNames (insertValue? keys last v) := by
  refine KeepsNames.update? ?_ keys
  intro origin origin' entries entries' hd h
  dsimp only at h
  split at h
  · cases h
  · rename_i hn
    obtain ⟨rfl, rfl⟩ := by simpa using h
    have hl : entries.lookup last = none :=
      Option.not_isSome_iff_eq_none.mp (not_or.mp hn).2
    exact hd.concat hl (.value hv)

theorem distinct_inlineTable? {members : List (List String × Value)} {v : Value}
    (hm : ∀ member ∈ members, member.2.Distinct) (h : inlineTable? members = some v) :
    v.Distinct := by
  obtain ⟨⟨origin, entries⟩, hf, ⟨⟩⟩ := Option.bind_eq_some_iff.mp h
  refine Value.distinct_table.mpr (Item.named_entryValues ?_)
  -- The table grows by one member at a time.
  have hd : Named Item.Distinct (Origin.header, ([] : Table)).2 := .nil
  clear h
  generalize (Origin.header, ([] : Table)) = start at hf hd
  induction members generalizing start with
  | nil =>
    obtain ⟨⟩ := hf
    exact hd
  | cons member rest ih =>
    rw [List.forall_mem_cons] at hm
    rw [List.foldlM_cons] at hf
    obtain ⟨next, hs, hf⟩ := Option.bind_eq_some_iff.mp hf
    refine ih hm.2 next hf ?_
    dsimp only at hs
    split at hs
    · exact keepsNames_insertValue? _ _ hm.1 hd hs
    · cases hs

/-! ### Values -/

theorem distinct_word? {word s after : List Char} {v w : Value} (hv : v.Distinct)
    (h : word? word v s = some (w, after)) : w.Distinct := by
  rw [word?] at h
  split at h
  · obtain ⟨⟩ := h
    exact hv
  · cases h

theorem distinct_number? {s after : List Char} {v : Value} (h : number? s = some (v, after)) :
    v.Distinct := by
  unfold number? at h
  extract_lets based result at h
  split at h <;>
  · obtain ⟨n, -, ⟨⟩⟩ := Option.bind_eq_some_iff.mp h
    exact .number _

theorem distinct_scalar? {s after : List Char} {v : Value} (h : scalar? s = some (v, after)) :
    v.Distinct := by
  simp only [scalar?, Option.orElse_eq_orElse, Option.orElse_eq_or, Option.or_eq_some_iff] at h
  rcases h with h | ⟨-, h | ⟨-, h | ⟨-, h | ⟨-, h⟩⟩⟩⟩
  · obtain ⟨_, -, ⟨⟩⟩ := Option.map_eq_some_iff.mp h
    exact .string _
  · obtain ⟨_, -, ⟨⟩⟩ := Option.bind_eq_some_iff.mp h
    exact .date _
  · exact distinct_word? (.bool true) h
  · exact distinct_word? (.bool false) h
  · exact distinct_number? h

/-- The three readers of values that call each other give values whose tables have distinct
    names. -/
structure ReadersDistinct (n : Nat) : Prop where
  value {depth : Nat} {s after : List Char} {v : Value} :
    value? depth n s = some (v, after) → v.Distinct
  items {depth : Nat} {s after : List Char} {items : List Value} :
    items? depth n s = some (items, after) → ∀ item ∈ items, item.Distinct
  members {depth : Nat} {s after : List Char} {members : List (List String × Value)} :
    members? depth n s = some (members, after) → ∀ member ∈ members, member.2.Distinct

theorem ReadersDistinct.succ_value {n : Nat} (ih : ReadersDistinct n) {depth : Nat}
    {s after : List Char} {v : Value} (h : value? depth (n + 1) s = some (v, after)) :
    v.Distinct := by
  rw [value?.eq_def] at h
  dsimp only at h
  split at h
  · obtain ⟨⟨items, rest⟩, hi, ⟨⟩⟩ := Option.bind_eq_some_iff.mp h
    exact .array (ih.items hi)
  · split at h
    · obtain ⟨⟩ := h
      exact .table List.nodup_nil (by simp)
    · obtain ⟨⟨members, rest⟩, hm, h⟩ := Option.bind_eq_some_iff.mp h
      obtain ⟨w, hw, ⟨⟩⟩ := Option.bind_eq_some_iff.mp h
      exact distinct_inlineTable? (ih.members hm) hw
  · cases h
  · cases h
  · exact distinct_scalar? h

theorem ReadersDistinct.succ_items {n : Nat} (ih : ReadersDistinct n) {depth : Nat}
    {s after : List Char} {items : List Value}
    (h : items? depth (n + 1) s = some (items, after)) : ∀ item ∈ items, item.Distinct := by
  rw [items?.eq_def] at h
  dsimp only at h
  split at h
  · obtain ⟨⟩ := h
    simp
  · obtain ⟨⟨item, rest⟩, hv, h⟩ := Option.bind_eq_some_iff.mp h
    have hd := ih.value hv
    dsimp only at h
    split at h
    · obtain ⟨⟩ := h
      simpa using hd
    · obtain ⟨⟨others, rest⟩, ho, ⟨⟩⟩ := Option.bind_eq_some_iff.mp h
      exact List.forall_mem_cons.mpr ⟨hd, ih.items ho⟩
    · cases h

theorem ReadersDistinct.succ_members {n : Nat} (ih : ReadersDistinct n) {depth : Nat}
    {s after : List Char} {members : List (List String × Value)}
    (h : members? depth (n + 1) s = some (members, after)) :
    ∀ member ∈ members, member.2.Distinct := by
  rw [members?.eq_def] at h
  dsimp only at h
  obtain ⟨⟨key, rest⟩, -, h⟩ := Option.bind_eq_some_iff.mp h
  obtain ⟨rest, -, h⟩ := Option.bind_eq_some_iff.mp h
  obtain ⟨⟨w, rest⟩, hv, h⟩ := Option.bind_eq_some_iff.mp h
  have hd := ih.value hv
  dsimp only at h
  split at h
  · obtain ⟨⟩ := h
    simpa using hd
  · obtain ⟨⟨others, rest⟩, ho, ⟨⟩⟩ := Option.bind_eq_some_iff.mp h
    exact List.forall_mem_cons.mpr ⟨hd, ih.members ho⟩
  · cases h

theorem readersDistinct (n : Nat) : ReadersDistinct n := by
  induction n with
  | zero => exact ⟨nofun, nofun, nofun⟩
  | succ n ih => exact ⟨ih.succ_value, ih.succ_items, ih.succ_members⟩

/-! ### Lines -/

/-- Each table of the document has each name once. -/
def Document.Distinct (d : Document) : Prop := Named Item.Distinct d.entries

namespace Document

theorem Distinct.change? {d d' : Document} (hd : d.Distinct) {path : List String}
    {change : Origin → Table → Option (Origin × Table)} (hc : KeepsNames change)
    (h : d.change? path change = some d') : d'.Distinct := by
  obtain ⟨⟨origin, entries⟩, hu, ⟨⟩⟩ := Option.bind_eq_some_iff.mp h
  exact hc.update? path hd hu

theorem Distinct.keyValue? {d d' : Document} (hd : d.Distinct) {keys : List String} {v : Value}
    (hv : v.Distinct) (h : d.keyValue? keys v = some d') : d'.Distinct := by
  obtain ⟨last, -, h⟩ := Option.bind_eq_some_iff.mp h
  exact hd.change? (keepsNames_insertValue? _ last hv) h

theorem Distinct.header? {d d' : Document} (hd : d.Distinct) {path : List String}
    (h : d.header? path = some d') : d'.Distinct := by
  obtain ⟨last, -, h⟩ := Option.bind_eq_some_iff.mp h
  obtain ⟨changed, hc, ⟨⟩⟩ := Option.bind_eq_some_iff.mp h
  change changed.Distinct
  refine hd.change? ?_ hc
  intro origin origin' entries entries' he h
  dsimp only at h
  split at h
  · obtain ⟨⟩ := h
    exact he.upsert (Item.distinct_table.mpr .nil)
  · rename_i hl
    obtain ⟨⟩ := h
    exact he.upsert (Item.distinct_table.mpr (Item.distinct_table.mp (he.of_lookup hl)))
  · cases h

theorem Distinct.arrayHeader? {d d' : Document} (hd : d.Distinct) {path : List String}
    (h : d.arrayHeader? path = some d') : d'.Distinct := by
  obtain ⟨last, -, h⟩ := Option.bind_eq_some_iff.mp h
  obtain ⟨changed, hc, ⟨⟩⟩ := Option.bind_eq_some_iff.mp h
  change changed.Distinct
  refine hd.change? ?_ hc
  intro origin origin' entries entries' he h
  dsimp only at h
  split at h
  · obtain ⟨⟩ := h
    exact he.upsert (Item.distinct_tables.mpr (by simp [Named.nil]))
  · rename_i hl
    obtain ⟨⟩ := h
    have hall := Item.distinct_tables.mp (he.of_lookup hl)
    exact he.upsert (Item.distinct_tables.mpr (List.forall_mem_cons.mpr ⟨.nil, hall⟩))
  · cases h

theorem Distinct.line? {d d' : Document} (hd : d.Distinct) {s after : List Char}
    (h : line? d s = some (d', after)) : d'.Distinct := by
  rw [Toml.line?] at h
  split at h
  · obtain ⟨⟨path, rest⟩, -, h⟩ := Option.bind_eq_some_iff.mp h
    obtain ⟨rest, -, h⟩ := Option.bind_eq_some_iff.mp h
    obtain ⟨rest, -, h⟩ := Option.bind_eq_some_iff.mp h
    obtain ⟨next, hn, ⟨⟩⟩ := Option.bind_eq_some_iff.mp h
    exact hd.arrayHeader? hn
  · obtain ⟨⟨path, rest⟩, -, h⟩ := Option.bind_eq_some_iff.mp h
    obtain ⟨rest, -, h⟩ := Option.bind_eq_some_iff.mp h
    obtain ⟨next, hn, ⟨⟩⟩ := Option.bind_eq_some_iff.mp h
    exact hd.header? hn
  · obtain ⟨⟩ := h
    exact hd
  · split at h
    · obtain ⟨⟩ := h
      exact hd
    · obtain ⟨⟨path, rest⟩, -, h⟩ := Option.bind_eq_some_iff.mp h
      obtain ⟨rest, -, h⟩ := Option.bind_eq_some_iff.mp h
      obtain ⟨⟨v, rest⟩, hv, h⟩ := Option.bind_eq_some_iff.mp h
      obtain ⟨next, hn, ⟨⟩⟩ := Option.bind_eq_some_iff.mp h
      exact hd.keyValue? ((readersDistinct _).value hv) hn

theorem Distinct.lines? {n : Nat} {d d' : Document} (hd : d.Distinct) {s : List Char}
    (h : lines? n d s = some d') : d'.Distinct := by
  induction n generalizing d s with
  | zero => cases h
  | succ n ih =>
    rw [Toml.lines?] at h
    split at h
    · obtain ⟨⟩ := h
      exact hd
    · obtain ⟨⟨next, rest⟩, hl, h⟩ := Option.bind_eq_some_iff.mp h
      obtain ⟨rest, -, h⟩ := Option.bind_eq_some_iff.mp h
      exact ih (hd.line? hl) h

end Document

/-- Every table that a document of TOML writes has each name once. -/
theorem read?_distinct {text : String} {entries : List (String × Value)}
    (h : read? text = some entries) : Named Value.Distinct entries := by
  obtain ⟨d, hd, rfl⟩ := Option.map_eq_some_iff.mp h
  exact Item.named_entryValues (Document.Distinct.lines? (d := {}) .nil hd)

end Toml

/-! ## Variables -/

namespace Settings.Variable

theorem distinct_plain (s : List Char) : (plain s).Distinct := by
  rw [plain]
  split
  · exact .number _
  · exact .string _

/-- The three readers of variables that call each other give values whose tables have distinct
    names. -/
structure ReadersDistinct (n : Nat) : Prop where
  value {s after : List Char} {v : Value} : value? n s = some (v, after) → v.Distinct
  items {s after : List Char} {items : List Value} :
    items? n s = some (items, after) → ∀ item ∈ items, item.Distinct
  entries {s after : List Char} {entries : List (String × Value)} :
    entries? n s = some (entries, after) → Named Value.Distinct entries

theorem ReadersDistinct.succ_value {n : Nat} (ih : ReadersDistinct n) {s after : List Char}
    {v : Value} (h : value? (n + 1) s = some (v, after)) : v.Distinct := by
  rw [value?.eq_def] at h
  dsimp only at h
  split at h
  · obtain ⟨⟩ := h
    exact .bool true
  · obtain ⟨⟩ := h
    exact .bool false
  · obtain ⟨_, -, ⟨⟩⟩ := Option.map_eq_some_iff.mp h
    exact .string _
  · obtain ⟨⟨items, rest⟩, hi, ⟨⟩⟩ := Option.map_eq_some_iff.mp h
    exact .array (ih.items hi)
  · obtain ⟨⟨entries, rest⟩, he, ⟨⟩⟩ := Option.map_eq_some_iff.mp h
    exact Value.distinct_table.mpr (ih.entries he)
  · obtain ⟨⟩ := h
    exact distinct_plain _

theorem ReadersDistinct.succ_items {n : Nat} (ih : ReadersDistinct n) {s after : List Char}
    {items : List Value} (h : items? (n + 1) s = some (items, after)) :
    ∀ item ∈ items, item.Distinct := by
  rw [items?.eq_def] at h
  dsimp only at h
  split at h
  · obtain ⟨⟩ := h
    simp
  · obtain ⟨⟨item, rest⟩, hv, h⟩ := Option.bind_eq_some_iff.mp h
    have hd := ih.value hv
    dsimp only at h
    split at h
    · obtain ⟨⟩ := h
      simpa using hd
    · obtain ⟨⟨others, rest⟩, ho, ⟨⟩⟩ := Option.bind_eq_some_iff.mp h
      exact List.forall_mem_cons.mpr ⟨hd, ih.items ho⟩
    · cases h

theorem ReadersDistinct.succ_entries {n : Nat} (ih : ReadersDistinct n) {s after : List Char}
    {entries : List (String × Value)} (h : entries? (n + 1) s = some (entries, after)) :
    Named Value.Distinct entries := by
  rw [entries?.eq_def] at h
  dsimp only at h
  split at h
  · obtain ⟨⟩ := h
    exact .nil
  · obtain ⟨⟨name, rest⟩, -, h⟩ := Option.bind_eq_some_iff.mp h
    obtain ⟨rest, -, h⟩ := Option.bind_eq_some_iff.mp h
    obtain ⟨⟨v, rest⟩, hv, h⟩ := Option.bind_eq_some_iff.mp h
    have hd := ih.value hv
    dsimp only at h
    split at h
    · obtain ⟨⟩ := h
      exact Named.nil.cons rfl hd
    · obtain ⟨⟨others, rest⟩, ho, ⟨⟩⟩ := Option.bind_eq_some_iff.mp h
      have hothers := ih.entries ho
      split
      · exact hothers
      · rename_i hl
        exact hothers.cons (Option.not_isSome_iff_eq_none.mp hl) hd
    · cases h

theorem readersDistinct (n : Nat) : ReadersDistinct n := by
  induction n with
  | zero => exact ⟨nofun, nofun, nofun⟩
  | succ n ih => exact ⟨ih.succ_value, ih.succ_items, ih.succ_entries⟩

/-- Every table in what a variable holds has each name once. -/
theorem distinct_value (text : String) : (value text).Distinct := by
  unfold value
  extract_lets s
  split
  · rename_i hv
    exact (readersDistinct _).value hv
  · exact .string _

theorem named_nested {v : Value} (hv : v.Distinct) (keys : List String) :
    Named Value.Distinct (nested v keys) := by
  induction keys with
  | nil => exact .nil
  | cons key keys ih =>
    cases keys with
    | nil => exact Named.nil.cons rfl hv
    | cons next keys => exact Named.nil.cons rfl (Value.distinct_table.mpr ih)

end Settings.Variable

end CallSchema
