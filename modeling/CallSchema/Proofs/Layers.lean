import Mathlib.Tactic.Choose
import CallSchema.Error
import CallSchema.Proofs.Tables

/-!
Settings that several layers make.

1. `Key.value? key layer` is the value that a layer gives one of the three settings, and
   `top? key layers` the value of the highest layer that gives it one.
2. `Sums table layers`: the table has the values of the highest layers. It holds of a layer alone
   (`Sums.single`) and of one such table laid over another (`Sums.merge`), so of all layers together
   (`exists_sums`).
3. Layers decide setting by setting (`load_layered`): settings are loaded exactly if the files can
   be read and the highest value of each setting is one that the setting can have, and then they
   have these values.

A table laid over a table keeps what only the lower one has, and a date is a table too where one
value covers another; so the groups have to be tables and the settings in them none (`Regular`).
-/

namespace CallSchema.Settings

/-- The entries of one layer. -/
abbrev Layer := List (String × Value)

/-! ## What a layer says -/

/-- What can be set. -/
inductive Key where
  | includeTests
  | cycles
  | duplicates
deriving Repr, DecidableEq

namespace Key

/-- The group that the setting is in. -/
def group : Key → String
  | includeTests => "source"
  | cycles => "schema"
  | duplicates => "schema"

/-- The name of the setting in its group. -/
def name : Key → String
  | includeTests => "include_tests"
  | cycles => "cycles"
  | duplicates => "duplicates"

/-- The value that the layer gives the setting. -/
def value? (key : Key) (layer : Layer) : Option Value :=
  match layer.lookup key.group with
  | some (.table members) => members.lookup key.name
  | _ => none

/-- The value stands for what the setting is in `s`. -/
def Says : Key → Value → Settings → Prop
  | includeTests, v, s => v = .bool s.includeTests
  | cycles, v, s => v = .string s.options.cycles.word
  | duplicates, v, s =>
    v = .string s.options.duplicates.word ∨
      v = .string "first_match" ∧ s.options.duplicates = .first

end Key

/-- Whether the value is a table. A date is none. -/
def Value.isTable : Value → Bool
  | .table _ => true
  | _ => false

theorem Value.isTable_iff {v : Value} : v.isTable = true ↔ ∃ members, v = .table members := by
  cases v <;> simp [Value.isTable]

/-- The groups of settings in the layer are tables, and the settings in them none. -/
structure Regular (layer : Layer) : Prop where
  group : ∀ key : Key, ∀ v ∈ layer.lookup key.group, v.isTable = true
  value : ∀ key : Key, ∀ v ∈ key.value? layer, v.isTable = false

instance Key.decidableForall {P : Key → Prop} [DecidablePred P] : Decidable (∀ key, P key) :=
  decidable_of_iff (P .includeTests ∧ P .cycles ∧ P .duplicates)
    ⟨fun ⟨ht, hc, hd⟩ key => by cases key <;> assumption,
      fun h => ⟨h .includeTests, h .cycles, h .duplicates⟩⟩

instance (layer : Layer) : Decidable (Regular layer) :=
  decidable_of_iff
    ((∀ key : Key, ∀ v ∈ layer.lookup key.group, v.isTable = true) ∧
      ∀ key : Key, ∀ v ∈ key.value? layer, v.isTable = false)
    ⟨fun h => ⟨h.1, h.2⟩, fun h => ⟨h.group, h.value⟩⟩

/-- The value of the highest layer that gives the setting one; the lowest layer comes first. -/
def top? (key : Key) (layers : List Layer) : Option Value := layers.reverse.findSome? key.value?

theorem top?_append (key : Key) (lower higher : List Layer) :
    top? key (lower ++ higher) = (top? key higher).or (top? key lower) := by
  rw [top?, List.reverse_append, List.findSome?_append, top?, top?]

/-- What a higher layer makes does not depend on the layers below. -/
theorem top?_congr_lower {key : Key} {higher : List Layer} (h : (top? key higher).isSome)
    (lower lower' : List Layer) : top? key (lower ++ higher) = top? key (lower' ++ higher) := by
  obtain ⟨v, hv⟩ := Option.isSome_iff_exists.mp h
  rw [top?_append, top?_append, hv, Option.some_or, Option.some_or]

/-! ## What is read from values -/

theorem bool?_eq_some {v : Value} {b : Bool} : bool? v = some b ↔ v = .bool b := by
  cases v <;> simp [bool?]

theorem word?_cycles_eq_some {v : Value} {p : CyclePolicy} :
    word? CyclePolicy.ofWord? v = some p ↔ v = .string p.word := by
  cases v with
  | string text =>
    rw [word?, CyclePolicy.ofWord?, Value.string.injEq]
    split
    · rename_i h
      cases p <;> simp [h, CyclePolicy.word]
    · split
      · rename_i h
        cases p <;> simp [h, CyclePolicy.word]
      · cases p <;> simp_all [CyclePolicy.word]
  | _ => simp [word?]

theorem word?_duplicates_eq_some {v : Value} {p : DuplicatePolicy} :
    word? DuplicatePolicy.ofWord? v = some p ↔
      v = .string p.word ∨ v = .string "first_match" ∧ p = .first := by
  cases v with
  | string text =>
    rw [word?, DuplicatePolicy.ofWord?, Value.string.injEq, Value.string.injEq]
    split
    · rename_i h
      cases p <;> rcases h with rfl | rfl <;> simp [DuplicatePolicy.word]
    · split
      · rename_i h
        cases p <;> simp [h, DuplicatePolicy.word]
      · cases p <;> simp_all [DuplicatePolicy.word]
  | _ => simp [word?]

/-- A setting of which the table has a value is what is read from that. -/
theorem setting_eq_ok {α : Type} {table : Layer} {key : Key} {place : Nat} {v : Value}
    (hv : key.value? table = some v) {read? : Value → Option α} {default a : α} :
    setting table key.group key.name place read? default = .ok a ↔ read? v = some a := by
  rw [Key.value?] at hv
  split at hv
  · rename_i members hl
    have hm : member? (.table members) key.name place = some v := hv
    rw [setting, hl]
    simp only [isGroup, Value.entries?, Option.isSome_some, if_true, hm]
    cases read? v <;> simp
  · cases hv

theorem setting_eq_error {α : Type} {table : Layer} {group name : String} {place : Nat}
    {read? : Value → Option α} {default : α} {e : SettingsError}
    (h : setting table group name place read? default = .error e) : e = .badValue := by
  unfold setting at h
  split at h
  · cases h
  · split at h
    · split at h
      · cases h
      · rename_i v _
        cases hr : read? v with
        | none =>
          rw [hr] at h
          obtain ⟨⟩ := h
          rfl
        | some a =>
          rw [hr] at h
          cases h
    · obtain ⟨⟩ := h
      rfl

theorem ofEntries_eq_error {table : Layer} {e : SettingsError} (h : ofEntries table = .error e) :
    e = .badValue := by
  rcases bind_eq_error.mp h with h | ⟨t, -, h⟩
  · exact setting_eq_error h
  rcases bind_eq_error.mp h with h | ⟨c, -, h⟩
  · exact setting_eq_error h
  rcases bind_eq_error.mp h with h | ⟨d, -, h⟩
  · exact setting_eq_error h
  · cases h

/-- Two tables that make the same settings are refused for the same reason. -/
theorem ofEntries_congr {table table' : Layer}
    (h : ∀ s, ofEntries table = .ok s ↔ ofEntries table' = .ok s) :
    ofEntries table = ofEntries table' := by
  cases ht : ofEntries table with
  | ok s => exact ((h s).mp ht).symm
  | error e =>
    cases ht' : ofEntries table' with
    | ok s => cases ht.symm.trans ((h s).mpr ht')
    | error e' => rw [ofEntries_eq_error ht, ofEntries_eq_error ht']

theorem ofEntries_eq_ok {table : Layer} (h : ∀ key : Key, ∃ v, key.value? table = some v)
    {s : Settings} :
    ofEntries table = .ok s ↔ ∀ key : Key, ∃ v, key.value? table = some v ∧ key.Says v s := by
  obtain ⟨tests, htests⟩ := h .includeTests
  obtain ⟨cycles, hcycles⟩ := h .cycles
  obtain ⟨duplicates, hduplicates⟩ := h .duplicates
  have hread : ofEntries table = .ok s ↔
      bool? tests = some s.includeTests ∧
      word? CyclePolicy.ofWord? cycles = some s.options.cycles ∧
      word? DuplicatePolicy.ofWord? duplicates = some s.options.duplicates := by
    simp only [ofEntries, bind_eq_ok]
    constructor
    · rintro ⟨t, ht, c, hc, d, hd, ⟨⟩⟩
      exact ⟨(setting_eq_ok htests).mp ht, (setting_eq_ok hcycles).mp hc,
        (setting_eq_ok hduplicates).mp hd⟩
    · rintro ⟨ht, hc, hd⟩
      exact ⟨_, (setting_eq_ok htests).mpr ht, _, (setting_eq_ok hcycles).mpr hc,
        _, (setting_eq_ok hduplicates).mpr hd, rfl⟩
  rw [hread, bool?_eq_some, word?_cycles_eq_some, word?_duplicates_eq_some]
  constructor
  · rintro ⟨ht, hc, hd⟩ key
    cases key with
    | includeTests => exact ⟨tests, htests, ht⟩
    | cycles => exact ⟨cycles, hcycles, hc⟩
    | duplicates => exact ⟨duplicates, hduplicates, hd⟩
  · intro hs
    have said (key : Key) {v : Value} (hv : key.value? table = some v) : key.Says v s := by
      obtain ⟨w, hw, hsays⟩ := hs key
      obtain rfl : v = w := Option.some.inj (hv.symm.trans hw)
      exact hsays
    exact ⟨said _ htests, said _ hcycles, said _ hduplicates⟩

/-! ## One layer over another -/

theorem Key.says_merge {key : Key} {old new : Value} {s : Settings}
    (ho : old.isTable = false) (hn : new.isTable = false) :
    key.Says (Value.merge old new) s ↔ key.Says new s := by
  cases new with
  | table members => cases hn
  | date text =>
    -- Over another date the old one stays, and neither says anything.
    rw [Value.merge]
    split
    · cases old with
      | table members => cases ho
      | date other => cases key <;> simp [Key.Says]
      | _ => simp_all [Value.entries?]
    · rfl
  | _ => rfl

theorem isTable_merge {old new : Value} (ho : old.isTable = false) (hn : new.isTable = false) :
    (Value.merge old new).isTable = false := by
  cases new with
  | table members => cases hn
  | date text =>
    rw [Value.merge]
    split
    · exact ho
    · rfl
  | _ => rfl

/-- What the setting is once a layer was laid over a table. -/
theorem Key.value?_mergeEntries (key : Key) {old new : Layer} (ho : Regular old)
    (hn : Regular new) (hd : Named Value.Distinct new) :
    key.value? (Value.mergeEntries old new) =
      match key.value? new with
      | some v => some ((key.value? old).elim v (Value.merge · v))
      | none => key.value? old := by
  simp only [Key.value?, Value.lookup_mergeEntries old new hd.nodup]
  cases hnew : new.lookup key.group with
  | none => rfl
  | some v =>
    obtain ⟨members, rfl⟩ := Value.isTable_iff.mp (hn.group key v hnew)
    have hm := (Value.distinct_table.mp (hd.of_lookup hnew)).nodup
    cases hold : old.lookup key.group with
    | none =>
      cases hl : members.lookup key.name <;> simp [hl]
    | some w =>
      obtain ⟨others, rfl⟩ := Value.isTable_iff.mp (ho.group key w hold)
      cases hl : members.lookup key.name <;>
        simp [Value.merge, Value.entries?, Value.lookup_mergeEntries others members hm, hl]

theorem Regular.merge {old new : Layer} (ho : Regular old) (hn : Regular new)
    (hd : Named Value.Distinct new) : Regular (Value.mergeEntries old new) := by
  constructor
  · intro key v hv
    rw [Option.mem_def, Value.lookup_mergeEntries old new hd.nodup] at hv
    split at hv
    · rename_i w hw
      obtain ⟨members, rfl⟩ := Value.isTable_iff.mp (hn.group key w hw)
      obtain rfl := Option.some.inj hv
      cases old.lookup key.group <;> rfl
    · exact ho.group key v hv
  · intro key v hv
    rw [Option.mem_def, key.value?_mergeEntries ho hn hd] at hv
    split at hv
    · rename_i w hw
      obtain rfl := Option.some.inj hv
      cases hold : key.value? old with
      | none => exact hn.value key w hw
      | some u => exact isTable_merge (ho.value key u hold) (hn.value key w hw)
    · exact ho.value key v hv

/-! ## All layers -/

/-- The two values stand for the same. -/
def Key.Alike (key : Key) (v w : Value) : Prop := ∀ s, key.Says v s ↔ key.Says w s

/-- The table comes from the layers: what it has for a setting says what the highest layer says that
    has something for it. -/
structure Sums (table : Layer) (layers : List Layer) : Prop where
  regular : Regular table
  named : Named Value.Distinct table
  value : ∀ key : Key, Option.Rel key.Alike (key.value? table) (top? key layers)

namespace Sums

theorem single {layer : Layer} (hr : Regular layer) (hd : Named Value.Distinct layer) :
    Sums layer [layer] where
  regular := hr
  named := hd
  value key := by
    have ht : top? key [layer] = key.value? layer := by simp [top?]
    rw [ht]
    cases key.value? layer with
    | none => exact .none
    | some v => exact .some fun s => Iff.rfl

theorem nil : Sums [] [] where
  regular := ⟨nofun, nofun⟩
  named := .nil
  value _ := .none

theorem merge {lower higher : Layer} {below above : List Layer} (hl : Sums lower below)
    (hh : Sums higher above) : Sums (Value.mergeEntries lower higher) (below ++ above) where
  regular := hl.regular.merge hh.regular hh.named
  named := Value.named_mergeEntries hl.named hh.named
  value key := by
    rw [key.value?_mergeEntries hl.regular hh.regular hh.named, top?_append]
    have hvalue := hh.value key
    generalize top? key above = top at hvalue ⊢
    cases hv : key.value? higher with
    | none =>
      rw [hv] at hvalue
      cases hvalue
      exact hl.value key
    | some v =>
      rw [hv] at hvalue
      cases hvalue with
      | some halike =>
        refine .some ?_
        cases hu : key.value? lower with
        | none => exact halike
        | some u =>
          intro s
          rw [← halike s]
          exact Key.says_merge (hl.regular.value key u hu) (hh.regular.value key v hv)

/-- Layers laid one after another over a table. -/
theorem foldl {table : Layer} {below layers : List Layer} (h : Sums table below)
    (hl : ∀ layer ∈ layers, Regular layer ∧ Named Value.Distinct layer) :
    Sums (layers.foldl Value.mergeEntries table) (below ++ layers) := by
  induction layers generalizing table below with
  | nil =>
    rw [List.append_nil]
    exact h
  | cons layer rest ih =>
    rw [List.forall_mem_cons] at hl
    rw [List.append_cons]
    exact ih (h.merge (single hl.1.1 hl.1.2)) hl.2

end Sums

/-- What the user's file, the project's file and the environment hold. -/
structure Configuration where
  userFile : Option ByteArray
  projectFile : Option ByteArray
  environment : List (String × String)

namespace Configuration

/-- The layer that a variable makes, if it is one of settings. -/
def variableLayer? : String × String → Option Layer
  | (name, text) => (Variable.path? name).map (Variable.nested (Variable.value text))

/-- The layers that a configuration gives, the lowest first, if its files can be read. Each variable
    is a layer of its own, over those of the variables before it. -/
def given (c : Configuration) : Except SettingsError (List Layer) := do
  let user ← fileLayer c.userFile
  let project ← fileLayer c.projectFile
  return user :: project :: c.environment.filterMap variableLayer?

/-- In each layer the groups of settings are tables, and the settings in them none. -/
def Regular (c : Configuration) : Prop :=
  ∀ layers, c.given = .ok layers → ∀ layer ∈ layers, Settings.Regular layer

end Configuration

theorem entries_eq_foldl (environment : List (String × String)) :
    Variable.entries environment =
      (environment.filterMap Configuration.variableLayer?).foldl Value.mergeEntries [] := by
  rw [Variable.entries, List.foldl_filterMap]
  congr 1
  funext table entry
  obtain ⟨name, text⟩ := entry
  simp only [Configuration.variableLayer?]
  cases Variable.path? name <;> rfl

theorem named_of_fileLayer {contents : Option ByteArray} {layer : Layer}
    (h : fileLayer contents = .ok layer) : Named Value.Distinct layer := by
  cases contents with
  | none =>
    obtain ⟨⟩ := h
    exact .nil
  | some bytes =>
    rw [fileLayer] at h
    cases hr : (String.fromUTF8? bytes).bind Toml.read? with
    | none => simp [hr] at h
    | some entries =>
      obtain ⟨text, -, ht⟩ := Option.bind_eq_some_iff.mp hr
      rw [hr] at h
      obtain ⟨⟩ := h
      exact Toml.read?_distinct ht

theorem named_of_variableLayer? {entry : String × String} {layer : Layer}
    (h : Configuration.variableLayer? entry = some layer) : Named Value.Distinct layer := by
  obtain ⟨path, -, rfl⟩ := Option.map_eq_some_iff.mp h
  exact Variable.named_nested (Variable.distinct_value _) path

theorem regular_builtin : Regular builtin := by decide +kernel

theorem named_builtin : Named Value.Distinct builtin := by
  have hsource : Value.Distinct (.table [("include_tests", .bool false)]) :=
    Value.distinct_table.mpr (Named.nil.cons rfl (.bool false))
  have hschema : Value.Distinct (.table [("cycles", .string CyclePolicy.null.word),
      ("duplicates", .string DuplicatePolicy.first.word)]) :=
    Value.distinct_table.mpr ((Named.nil.cons rfl (.string _)).cons rfl (.string _))
  exact (Named.nil.cons rfl hschema).cons rfl hsource

theorem Configuration.exists_of_given {c : Configuration} {layers : List Layer}
    (h : c.given = .ok layers) :
    ∃ user project, fileLayer c.userFile = .ok user ∧ fileLayer c.projectFile = .ok project ∧
      layers = user :: project :: c.environment.filterMap variableLayer? := by
  obtain ⟨user, hu, h⟩ := bind_eq_ok.mp h
  obtain ⟨project, hp, ⟨⟩⟩ := bind_eq_ok.mp h
  exact ⟨user, project, hu, hp, rfl⟩

/-- The table of all layers laid over each other comes from them. -/
theorem exists_sums {c : Configuration} (hc : c.Regular) {layers : List Layer}
    (h : c.given = .ok layers) :
    ∃ table, Sums table (builtin :: layers) ∧
      load c.userFile c.projectFile c.environment = ofEntries table := by
  have hr := hc layers h
  obtain ⟨user, project, hu, hp, rfl⟩ := c.exists_of_given h
  simp only [List.forall_mem_cons] at hr
  obtain ⟨hur, hpr, hvr⟩ := hr
  have henvironment : Sums (Variable.entries c.environment)
      (c.environment.filterMap Configuration.variableLayer?) := by
    rw [entries_eq_foldl]
    refine Sums.nil.foldl fun layer hl => ⟨hvr layer hl, ?_⟩
    obtain ⟨entry, -, hv⟩ := List.mem_filterMap.mp hl
    exact named_of_variableLayer? hv
  have huser := (Sums.single regular_builtin named_builtin).merge
    (.single hur (named_of_fileLayer hu))
  have hproject := huser.merge (.single hpr (named_of_fileLayer hp))
  refine ⟨_, hproject.merge henvironment, ?_⟩
  rw [load, hu, hp]
  rfl

/-- Settings are loaded only if the files can be read. -/
theorem exists_given_of_load {c : Configuration} {s : Settings}
    (h : load c.userFile c.projectFile c.environment = .ok s) :
    ∃ layers, c.given = .ok layers := by
  obtain ⟨user, hu, h⟩ := bind_eq_ok.mp h
  obtain ⟨project, hp, -⟩ := bind_eq_ok.mp h
  exact ⟨_, bind_eq_ok.mpr ⟨user, hu, bind_eq_ok.mpr ⟨project, hp, rfl⟩⟩⟩

/-- Something is always on top, if only what is built in. -/
theorem isSome_top?_builtin (key : Key) (layers : List Layer) :
    (top? key (builtin :: layers)).isSome := by
  have hb : (top? key [builtin]).isSome := by cases key <;> decide
  rw [← List.singleton_append, top?_append, Option.isSome_or, hb, Bool.or_true]

/-- Each setting has a value in the table, which says what the value on top says. -/
theorem Sums.exists_values {table : Layer} {layers : List Layer}
    (h : Sums table (builtin :: layers)) (key : Key) :
    ∃ v w, key.value? table = some v ∧ top? key (builtin :: layers) = some w ∧ key.Alike v w := by
  have hvalue := h.value key
  obtain ⟨w, hw⟩ := Option.isSome_iff_exists.mp (isSome_top?_builtin key layers)
  rw [hw] at hvalue ⊢
  cases hv : key.value? table with
  | none =>
    rw [hv] at hvalue
    cases hvalue
  | some v =>
    rw [hv] at hvalue
    cases hvalue with
    | some halike => exact ⟨v, w, rfl, rfl, halike⟩

theorem Sums.ofEntries_eq_ok {table : Layer} {layers : List Layer}
    (h : Sums table (builtin :: layers)) {s : Settings} :
    ofEntries table = .ok s ↔
      ∀ key : Key, ∃ v, top? key (builtin :: layers) = some v ∧ key.Says v s := by
  rw [Settings.ofEntries_eq_ok fun key => by
    obtain ⟨v, -, hv, -⟩ := h.exists_values key
    exact ⟨v, hv⟩]
  refine forall_congr' fun key => ?_
  obtain ⟨v, w, hv, hw, halike⟩ := h.exists_values key
  simp [hv, hw, halike s]

theorem load_eq_ok {c : Configuration} (hc : c.Regular) {s : Settings} :
    load c.userFile c.projectFile c.environment = .ok s ↔
      ∃ layers, c.given = .ok layers ∧
        ∀ key : Key, ∃ v, top? key (builtin :: layers) = some v ∧ key.Says v s := by
  constructor
  · intro h
    obtain ⟨layers, hg⟩ := exists_given_of_load h
    obtain ⟨table, hsums, hload⟩ := exists_sums hc hg
    exact ⟨layers, hg, hsums.ofEntries_eq_ok.mp (hload ▸ h)⟩
  · rintro ⟨layers, hg, hsays⟩
    obtain ⟨table, hsums, hload⟩ := exists_sums hc hg
    rw [hload]
    exact hsums.ofEntries_eq_ok.mpr hsays

/-- Values that each stand for something stand for something together. -/
theorem Key.exists_says {value : Key → Value} (h : ∀ key : Key, ∃ s, key.Says (value key) s) :
    ∃ s, ∀ key : Key, key.Says (value key) s := by
  obtain ⟨t, ht⟩ := h .includeTests
  obtain ⟨c, hc⟩ := h .cycles
  obtain ⟨d, hd⟩ := h .duplicates
  refine ⟨⟨t.includeTests, ⟨c.options.cycles, d.options.duplicates⟩⟩, fun key => ?_⟩
  cases key with
  | includeTests => exact ht
  | cycles => exact hc
  | duplicates => exact hd

/-- Layers are decided setting by setting. The settings of a configuration with regular layers are
    `s` exactly if its files can be read and the value on top of each setting stands for what that
    is in `s`; there are some exactly if each value on top stands for something; and what is on top
    is all that matters, whatever other values and keys the layers have. -/
theorem load_layered (c : Configuration) (hc : c.Regular) :
    (∀ s, load c.userFile c.projectFile c.environment = .ok s ↔
      ∃ layers, c.given = .ok layers ∧
        ∀ key : Key, ∃ v, top? key (builtin :: layers) = some v ∧ key.Says v s) ∧
    ((∃ s, load c.userFile c.projectFile c.environment = .ok s) ↔
      ∃ layers, c.given = .ok layers ∧
        ∀ key : Key, ∃ v, top? key (builtin :: layers) = some v ∧ ∃ s, key.Says v s) ∧
    ∀ c' : Configuration, c'.Regular → ∀ layers layers', c.given = .ok layers →
      c'.given = .ok layers' →
      (∀ key, top? key (builtin :: layers) = top? key (builtin :: layers')) →
      load c.userFile c.projectFile c.environment =
        load c'.userFile c'.projectFile c'.environment := by
  refine ⟨fun s => load_eq_ok hc, ⟨?_, ?_⟩, ?_⟩
  · rintro ⟨s, h⟩
    obtain ⟨layers, hg, hsays⟩ := (load_eq_ok hc).mp h
    refine ⟨layers, hg, fun key => ?_⟩
    obtain ⟨v, hv, hs⟩ := hsays key
    exact ⟨v, hv, s, hs⟩
  · rintro ⟨layers, hg, hsays⟩
    choose value hvalue hs using hsays
    obtain ⟨s, hs⟩ := Key.exists_says hs
    exact ⟨s, (load_eq_ok hc).mpr ⟨layers, hg, fun key => ⟨value key, hvalue key, hs key⟩⟩⟩
  · intro c' hc' layers layers' hg hg' htop
    obtain ⟨table, hsums, hload⟩ := exists_sums hc hg
    obtain ⟨table', hsums', hload'⟩ := exists_sums hc' hg'
    rw [hload, hload']
    refine ofEntries_congr fun s => ?_
    rw [hsums.ofEntries_eq_ok, hsums'.ofEntries_eq_ok]
    simp only [htop]

/-- A user's file that sets `cycles` to a number, a project's file that sets both policies and a
    name without meaning, and a variable for the rest. -/
def covering : Configuration where
  userFile := some "schema.cycles = 5\n".toUTF8
  projectFile := some
    "schema.cycles = \"error\"\nschema.duplicates = \"first_match\"\nschema.typo = 1\n".toUTF8
  environment := [("FNSCHEMA_SOURCE__INCLUDE_TESTS", "true")]

/-- The same without the user's file. -/
def uncovered : Configuration := { covering with userFile := none }

instance (c : Configuration) : Decidable c.Regular :=
  decidable_of_iff (∀ layers ∈ c.given.toOption, ∀ layer ∈ layers, Regular layer) (by
    rw [Configuration.Regular]
    cases c.given <;> simp [Except.toOption])

theorem load_layered_covering :
    covering.Regular ∧ uncovered.Regular ∧
      (∃ layers, covering.given = .ok layers ∧
        ∀ key : Key, ∃ v, top? key (builtin :: layers) = some v ∧
          key.Says v { includeTests := true, options := { cycles := .error } }) ∧
      load covering.userFile covering.projectFile covering.environment =
        load uncovered.userFile uncovered.projectFile uncovered.environment := by
  have hc : covering.Regular := by decide +kernel
  have hu : uncovered.Regular := by decide +kernel
  have hload : load covering.userFile covering.projectFile covering.environment =
      .ok { includeTests := true, options := { cycles := .error } } :=
    eq_ok_of_mem_toOption (by decide +kernel)
  have htop : ∀ project ∈ (fileLayer covering.projectFile).toOption, ∀ key : Key,
      (top? key
        (project :: covering.environment.filterMap Configuration.variableLayer?)).isSome := by
    decide +kernel
  have hgiven : uncovered.given.toOption.isSome := by decide +kernel
  obtain ⟨layers', hg'⟩ := Option.isSome_iff_exists.mp hgiven
  have hsays := ((load_layered covering hc).1 _).mp hload
  obtain ⟨layers, hg, -⟩ := id hsays
  refine ⟨hc, hu, hsays, (load_layered covering hc).2.2 uncovered hu layers layers' hg
    (eq_ok_of_mem_toOption hg') fun key => ?_⟩
  obtain ⟨user, project, -, hp, rfl⟩ := covering.exists_of_given hg
  obtain ⟨user', project', -, hp', rfl⟩ := uncovered.exists_of_given (eq_ok_of_mem_toOption hg')
  obtain rfl : project = project' := Except.ok.inj (hp.symm.trans hp')
  have hsome := htop project (by rw [hp]; rfl) key
  exact top?_congr_lower hsome [builtin, user] [builtin, user']

end CallSchema.Settings
