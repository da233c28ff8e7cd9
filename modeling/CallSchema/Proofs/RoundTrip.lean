import CallSchema.Proofs.JsonText
import CallSchema.Proofs.Nodes
import CallSchema.Schema.Document

/-!
A document, read again.

1. `Json.record?_written`: a record is read as the values that its slots hold, those that were left
   out included.
2. `Definition.ofJson?_toJson`: the document of a node stands for the node wherever its levels are
   followed (`IsReadBack`).
3. `FunctionDetails.read?_render`: the text of a function is read as the function in either layout,
   different functions have different texts, and the compact text is one line.

The properties of a node are a map, kept as a list of pairs: `MapsProperties` says that no name
stands twice.
-/

namespace CallSchema

namespace Json

/-! ## Levels -/

mutual

/-- How many arrays and objects stand inside each other. -/
def levels : Json → Nat
  | .array items => levelsItems items + 1
  | .object members => levelsMembers members + 1
  | .null | .bool _ | .number _ | .string _ | .unpaired => 0
termination_by structural j => j

/-- The most levels of any of the items. -/
def levelsItems : List Json → Nat
  | [] => 0
  | item :: items => max (levels item) (levelsItems items)
termination_by structural items => items

/-- The levels of the value of a member. -/
def levelsMember : String × Json → Nat
  | (_, value) => levels value
termination_by structural member => member

/-- The most levels of the value of any of the members. -/
def levelsMembers : List (String × Json) → Nat
  | [] => 0
  | member :: members => max (levelsMember member) (levelsMembers members)
termination_by structural members => members

end

theorem levels_lt_of_mem {key : String} {value : Json} {members : List (String × Json)}
    (h : (key, value) ∈ members) : value.levels < (object members).levels := by
  rw [levels, Nat.lt_succ_iff]
  induction members with
  | nil => exact absurd h List.not_mem_nil
  | cons first members ih =>
    rw [levelsMembers]
    rcases List.mem_cons.mp h with rfl | h
    · rw [levelsMember]
      exact Nat.le_max_left _ _
    · exact Nat.le_trans (ih h) (Nat.le_max_right _ _)

theorem levels_object_pos (members : List (String × Json)) : 0 < (object members).levels :=
  Nat.succ_pos _

/-! ## Records -/

/-- The members of a record: a key without a value is left out. -/
def written (slots : List (String × Option Json)) : List (String × Json) :=
  slots.flatMap fun (key, value) => (value.map (key, ·)).toList

theorem mem_written {slots : List (String × Option Json)} {key : String} {value : Json} :
    (key, value) ∈ written slots ↔ (key, some value) ∈ slots := by
  simp only [written, List.mem_flatMap, Option.mem_toList, Option.map_eq_some_iff, Prod.mk.injEq]
  constructor
  · rintro ⟨⟨_, _⟩, hslot, _, rfl, rfl, rfl⟩
    exact hslot
  · intro hslot
    exact ⟨_, hslot, value, rfl, rfl, rfl⟩

theorem filter_written {slots : List (String × Option Json)} {key : String} {value : Option Json}
    (hn : (slots.map Prod.fst).Nodup) (hm : (key, value) ∈ slots) :
    (written slots).filter (·.1 == key) = (value.map (key, ·)).toList := by
  induction slots with
  | nil => exact absurd hm List.not_mem_nil
  | cons slot slots ih =>
    obtain ⟨other, first⟩ := slot
    obtain ⟨hfresh, hn⟩ := List.nodup_cons.mp hn
    have hcons : written ((other, first) :: slots) =
        (first.map (other, ·)).toList ++ written slots := rfl
    rw [hcons, List.filter_append]
    rcases List.mem_cons.mp hm with heq | hm
    · obtain ⟨rfl, rfl⟩ := Prod.mk.inj heq
      have hrest : (written slots).filter (·.1 == key) = [] := by
        rw [List.filter_eq_nil_iff]
        rintro ⟨k, j⟩ hj hk
        obtain rfl : k = key := by simpa using hk
        exact hfresh (List.mem_map.mpr ⟨_, mem_written.mp hj, rfl⟩)
      rw [hrest, List.append_nil]
      cases value <;> simp
    · have hne : other ≠ key := by
        rintro rfl
        exact hfresh (List.mem_map.mpr ⟨_, hm, rfl⟩)
      rw [ih hn hm]
      cases first <;> simp [hne]

theorem member?_written {slots : List (String × Option Json)} {key : String} {value : Option Json}
    (hn : (slots.map Prod.fst).Nodup) (hm : (key, value) ∈ slots) :
    member? (written slots) key = some value := by
  rw [member?, filter_written hn hm]
  cases value <;> rfl

/-- A record is read as what its slots hold. -/
theorem record?_written {slots : List (String × Option Json)} (hn : (slots.map Prod.fst).Nodup) :
    record? (slots.map Prod.fst) (object (written slots)) = some (slots.map Prod.snd) := by
  have hparts : ∀ part ⊆ slots, (part.map Prod.fst).mapM (member? (written slots)) =
      some (part.map Prod.snd) := by
    intro part hpart
    induction part with
    | nil => rfl
    | cons slot part ih =>
      obtain ⟨hslot, hrest⟩ := List.cons_subset.mp hpart
      rw [List.map_cons, List.mapM_cons, member?_written hn hslot, ih hrest]
      rfl
  exact hparts slots (List.Subset.refl slots)

/-- A value that is left out if it is empty. -/
def valueUnless (empty : Bool) (value : Json) : Option Json := if empty then none else some value

theorem memberUnless_eq (empty : Bool) (key : String) (value : Json) :
    memberUnless empty key value = ((valueUnless empty value).map (key, ·)).toList := by
  cases empty <;> rfl

/-- What was left out is restored as the default. -/
theorem orDefault_valueUnless {α : Type} {read : Json → Option α} {default a : α} {empty : Bool}
    {value : Json} (hempty : empty = true → a = default)
    (hread : empty = false → read value = some a) :
    orDefault read default (valueUnless empty value) = some a := by
  cases empty with
  | true => rw [hempty rfl, valueUnless, if_pos rfl, orDefault]
  | false => exact hread rfl

theorem strings?_strings (n : Nat) (values : List String) :
    strings? (n + 1) (strings values) = some values := by
  rw [strings, strings?]
  induction values with
  | nil => rfl
  | cons value values ih =>
    rw [List.map_cons, List.mapM_cons, ih]
    rfl

end Json

namespace Definition

/-! ## The document of a node -/

theorem propertiesToJson_eq (properties : List (String × Definition)) :
    propertiesToJson properties = properties.map fun (name, d) => (name, d.toJson) := by
  induction properties with
  | nil => rfl
  | cons property rest ih => rw [propertiesToJson, ih, propertyToJson, List.map_cons]

/-- The keys of a node with their values. -/
def slots (d : Definition) : List (String × Option Json) :=
  [("type", some (.string d.type.word)),
    ("description", Json.valueUnless d.description.isEmpty (.string d.description)),
    ("enum", Json.valueUnless d.enumValues.isEmpty (.strings d.enumValues)),
    ("properties", Json.valueUnless d.properties.isEmpty
      (.object (d.properties.map fun (name, d) => (name, d.toJson)))),
    ("required", Json.valueUnless d.required.isEmpty (.strings d.required)),
    ("items", d.items.map toJson)]

theorem toJson_eq (d : Definition) : d.toJson = .object (Json.written d.slots) := by
  obtain ⟨type, description, enumValues, properties, required, items⟩ := d
  have hitems : itemsToJson items = ((items.map toJson).map ("items", ·)).toList := by
    cases items <;> rfl
  rw [toJson, propertiesToJson_eq, hitems]
  simp only [Json.memberUnless_eq, Json.written, slots, List.flatMap_cons, List.flatMap_nil,
    List.append_assoc, List.append_nil]
  rfl

/-- What holds of strings, and of arrays and objects of values of which it holds, holds of every
    document. -/
theorem toJson_induct {P : Json → Prop} (hstring : ∀ value, P (.string value))
    (harray : ∀ items, (∀ j ∈ items, P j) → P (.array items))
    (hobject : ∀ members : List (String × Json), (∀ m ∈ members, P m.2) → P (.object members))
    (d : Definition) : P d.toJson := by
  have hstrings (values : List String) : P (.strings values) := by
    apply harray
    rintro _ hj
    obtain ⟨value, -, rfl⟩ := List.mem_map.mp hj
    exact hstring value
  have hunless {empty : Bool} {value j : Json} (hv : P value)
      (h : some j = Json.valueUnless empty value) : P j := by
    cases empty with
    | true => exact absurd h (by simp [Json.valueUnless])
    | false => exact Option.some.inj h ▸ hv
  induction d using Definition.induct with
  | h d ihproperties ihitems =>
    rw [toJson_eq]
    refine hobject _ fun (key, j) hj => ?_
    have hslot := Json.mem_written.mp hj
    simp only [slots, List.mem_cons, List.not_mem_nil, or_false, Prod.mk.injEq] at hslot
    rcases hslot with ⟨-, h⟩ | ⟨-, h⟩ | ⟨-, h⟩ | ⟨-, h⟩ | ⟨-, h⟩ | ⟨-, h⟩
    · exact Option.some.inj h ▸ hstring _
    · exact hunless (hstring _) h
    · exact hunless (hstrings _) h
    · refine hunless (hobject _ fun member hm => ?_) h
      obtain ⟨⟨name, value⟩, hp, rfl⟩ := List.mem_map.mp hm
      exact ihproperties name value hp
    · exact hunless (hstrings _) h
    · obtain ⟨element, he, rfl⟩ := Option.map_eq_some_iff.mp h.symm
      exact ihitems element he

/-! ## Nodes, read again -/

/-- No name stands twice among the properties of a node. -/
def MapsProperties (d : Definition) : Prop := d.propertyNames.Nodup

instance (d : Definition) : Decidable d.MapsProperties :=
  inferInstanceAs (Decidable d.propertyNames.Nodup)

/-- Properties with distinct names are all restored. -/
theorem ofMembers_properties {read : Json → Option Definition}
    {properties : List (String × Definition)} (hn : (properties.map Prod.fst).Nodup)
    (hread : ∀ name d, (name, d) ∈ properties → read d.toJson = some d) :
    ofMembers read (properties.map fun (name, d) => (name, d.toJson)) = some properties := by
  have hrest : ∀ before after, before ++ after = properties →
      (after.map fun (name, d) => (name, d.toJson)).foldlM
        (fun properties (name, j) => (read j).map fun d => upsert name d properties) before =
          some properties := by
    intro before after
    induction after generalizing before with
    | nil =>
      rintro rfl
      rw [List.append_nil]
      rfl
    | cons property after ih =>
      obtain ⟨name, d⟩ := property
      rintro rfl
      have hd : read d.toJson = some d := hread name d (by simp)
      have hfresh : name ∉ before.map Prod.fst := by
        rw [List.map_append, List.nodup_append] at hn
        intro hm
        exact hn.2.2 name hm name (by simp) rfl
      rw [List.map_cons, List.foldlM_cons]
      show ((read d.toJson).map fun d => upsert name d before) >>= _ = _
      rw [hd, Option.map_some, upsert_of_notMem d hfresh]
      exact ih (before ++ [(name, d)]) (by simp)
  exact hrest [] properties rfl

theorem levels_lt_of_slot {d : Definition} {key : String} {value : Json}
    (h : (key, some value) ∈ d.slots) : value.levels < d.toJson.levels := by
  rw [toJson_eq]
  exact Json.levels_lt_of_mem (Json.mem_written.mpr h)

theorem record?_toJson (d : Definition) :
    Json.record? keys d.toJson = some (d.slots.map Prod.snd) := by
  have hkeys : d.slots.map Prod.fst = keys := rfl
  rw [toJson_eq, ← hkeys]
  apply Json.record?_written
  rw [hkeys]
  decide

/-- A list of strings that is written is a level of its own. -/
theorem strings?_slot {d : Definition} (key : String) (values : List String) {n : Nat}
    (hslot : (key, Json.valueUnless values.isEmpty (.strings values)) ∈ d.slots)
    (hlevels : d.toJson.levels ≤ n + 1) :
    Json.orDefault (Json.strings? n) [] (Json.valueUnless values.isEmpty (.strings values)) =
      some values := by
  refine Json.orDefault_valueUnless List.isEmpty_iff.mp fun hempty => ?_
  rw [Json.valueUnless, hempty, if_neg Bool.false_ne_true] at hslot
  have hlt := levels_lt_of_slot hslot
  have hpos : 0 < (Json.strings values).levels := Nat.succ_pos _
  obtain ⟨n, rfl⟩ : ∃ m, n = m + 1 := Nat.exists_eq_add_one.mpr (by omega)
  exact Json.strings?_strings n values

/-- The node is read back from its document wherever its levels are followed. -/
def IsReadBack (d : Definition) : Prop :=
  ∀ {n : Nat}, d.toJson.levels ≤ n → ofJson? n d.toJson = some d

theorem properties?_slot {d : Definition} {n : Nat} (hmaps : d.MapsProperties)
    (hread : ∀ name value, (name, value) ∈ d.properties → value.IsReadBack)
    (hlevels : d.toJson.levels ≤ n + 1) :
    Json.orDefault (properties? n) [] (Json.valueUnless d.properties.isEmpty
      (.object (d.properties.map fun (name, d) => (name, d.toJson)))) = some d.properties := by
  refine Json.orDefault_valueUnless List.isEmpty_iff.mp fun hempty => ?_
  rw [← propertiesToJson_eq]
  -- The object of the properties is a level between the node and what stands below it.
  have hslot : ("properties", some (.object (propertiesToJson d.properties))) ∈ d.slots := by
    simp [slots, Json.valueUnless, hempty, propertiesToJson_eq]
  have hlt := levels_lt_of_slot hslot
  have hpos := Json.levels_object_pos (propertiesToJson d.properties)
  obtain ⟨n, rfl⟩ : ∃ m, n = m + 1 := Nat.exists_eq_add_one.mpr (by omega)
  rw [properties?, propertiesToJson_eq]
  refine ofMembers_properties hmaps fun name value hm => ?_
  have hmember : (name, value.toJson) ∈ propertiesToJson d.properties := by
    rw [propertiesToJson_eq]
    exact List.mem_map.mpr ⟨_, hm, rfl⟩
  have hbelow := Json.levels_lt_of_mem hmember
  exact hread name value hm (by omega)

theorem items?_slot {d : Definition} {n : Nat}
    (hread : ∀ element, d.items = some element → element.IsReadBack)
    (hlevels : d.toJson.levels ≤ n + 1) :
    Json.orDefault (items? (ofJson? n)) none (d.items.map toJson) = some d.items := by
  cases he : d.items with
  | none => rfl
  | some element =>
    have hslot : ("items", some element.toJson) ∈ d.slots := by simp [slots, he]
    have hlt := levels_lt_of_slot hslot
    have helement := hread element he (n := n) (by omega)
    rw [toJson_eq] at helement
    rw [Option.map_some, toJson_eq, Json.orDefault, items?, helement, Option.map_some]
    nofun

/-- The document of a node stands for the node. -/
theorem ofJson?_toJson {d : Definition} (hmaps : d.Every MapsProperties) : d.IsReadBack := by
  induction d using Definition.induct with
  | h d ihproperties ihitems =>
    obtain ⟨hhere, hproperties, hitems⟩ := every_iff.mp hmaps
    intro n hn
    have hpos : 0 < d.toJson.levels := d.toJson_eq ▸ Json.levels_object_pos _
    obtain ⟨n, rfl⟩ : ∃ m, n = m + 1 := Nat.exists_eq_add_one.mpr (by omega)
    rw [ofJson?]
    refine Option.bind_eq_some_iff.mpr ⟨_, record?_toJson d, ?_⟩
    refine Option.bind_eq_some_iff.mpr ⟨d.type, ?_, ?_⟩
    · cases n <;> exact DataType.ofWord?_word d.type
    refine Option.bind_eq_some_iff.mpr ⟨d.description, ?_, ?_⟩
    · exact Json.orDefault_valueUnless String.isEmpty_iff.mp fun _ => rfl
    refine Option.bind_eq_some_iff.mpr ⟨d.enumValues, ?_, ?_⟩
    · exact strings?_slot "enum" d.enumValues (by simp [slots]) hn
    refine Option.bind_eq_some_iff.mpr ⟨d.properties, ?_, ?_⟩
    · apply properties?_slot hhere _ hn
      intro name value hm
      exact ihproperties name value hm (hproperties name value hm)
    refine Option.bind_eq_some_iff.mpr ⟨d.required, ?_, ?_⟩
    · exact strings?_slot "required" d.required (by simp [slots]) hn
    refine Option.bind_eq_some_iff.mpr ⟨d.items, ?_, ?_⟩
    · apply items?_slot _ hn
      intro element he
      exact ihitems element he (hitems element he)
    · cases d
      rfl

theorem toJson_inj {d e : Definition} (hd : d.Every MapsProperties) (he : e.Every MapsProperties)
    (h : d.toJson = e.toJson) : d = e := by
  have hleft : ofJson? d.toJson.levels d.toJson = some d := ofJson?_toJson hd (Nat.le_refl _)
  have hright : ofJson? d.toJson.levels d.toJson = some e := by
    rw [h]
    exact ofJson?_toJson he (Nat.le_refl _)
  exact Option.some.inj (hleft.symm.trans hright)

end Definition

namespace FunctionDetails

/-! ## Functions -/

/-- The keys of a function with their values. -/
def slots (f : FunctionDetails) : List (String × Option Json) :=
  [("name", some (.string f.name)), ("description", some (.string f.description)),
    ("parameters", some f.parameters.toJson)]

theorem toJson_eq (f : FunctionDetails) : f.toJson = .object (Json.written f.slots) := rfl

theorem record?_toJson (f : FunctionDetails) :
    Json.record? keys f.toJson = some (f.slots.map Prod.snd) := by
  have hkeys : f.slots.map Prod.fst = keys := rfl
  rw [toJson_eq, ← hkeys]
  apply Json.record?_written
  rw [hkeys]
  decide

theorem toJson_induct {P : Json → Prop} (hstring : ∀ value, P (.string value))
    (harray : ∀ items, (∀ j ∈ items, P j) → P (.array items))
    (hobject : ∀ members : List (String × Json), (∀ m ∈ members, P m.2) → P (.object members))
    (f : FunctionDetails) : P f.toJson := by
  refine hobject _ ?_
  intro member hm
  simp only [List.mem_cons, List.not_mem_nil, or_false] at hm
  rcases hm with rfl | rfl | rfl
  · exact hstring f.name
  · exact hstring f.description
  · exact f.parameters.toJson_induct hstring harray hobject

/-- The text of a function is the text of its document. -/
theorem read?_text (f : FunctionDetails) (layout : Json.Layout) :
    Json.read? (f.render layout) = some f.toJson :=
  (f.toJson_induct Json.readsBack_string (fun _ => Json.readsBack_array)
    (fun _ => Json.readsBack_object)).read?_text layout (List.forall_mem_singleton.mpr rfl)

theorem ofJson?_toJson {f : FunctionDetails} (hmaps : f.parameters.Every Definition.MapsProperties)
    (hlevels : f.toJson.levels ≤ Json.nestingLimit) : ofJson? f.toJson = some f := by
  have hslot : ("parameters", f.parameters.toJson) ∈ Json.written f.slots := by
    simp [Json.mem_written, slots]
  have hbelow := Json.levels_lt_of_mem hslot
  rw [toJson_eq] at hlevels
  rw [ofJson?]
  refine Option.bind_eq_some_iff.mpr ⟨_, record?_toJson f, ?_⟩
  refine Option.bind_eq_some_iff.mpr ⟨f.name, rfl, ?_⟩
  refine Option.bind_eq_some_iff.mpr ⟨f.description, rfl, ?_⟩
  refine Option.bind_eq_some_iff.mpr ⟨f.parameters, ?_, rfl⟩
  exact Definition.ofJson?_toJson hmaps (by omega)

theorem toJson_inj {f g : FunctionDetails} (hf : f.parameters.Every Definition.MapsProperties)
    (hg : g.parameters.Every Definition.MapsProperties) (h : f.toJson = g.toJson) : f = g := by
  obtain ⟨name, description, parameters⟩ := f
  obtain ⟨name', description', parameters'⟩ := g
  simp only [toJson, Json.object.injEq, List.cons.injEq, Prod.mk.injEq, Json.string.injEq,
    true_and, and_true] at h
  obtain ⟨rfl, rfl, hparameters⟩ := h
  obtain rfl := Definition.toJson_inj hf hg hparameters
  rfl

/-- The compact text of a function is one line. -/
theorem render_compact (f : FunctionDetails) :
    ∃ line, f.render .compact = line ++ "\n" ∧ ∀ c ∈ line.toList, 0x20 ≤ c.toNat := by
  have hline : Json.OneLine f.toJson := f.toJson_induct Json.oneLine_string
    (fun _ => Json.oneLine_array) (fun _ => Json.oneLine_object)
  refine ⟨f.toJson.text .compact, rfl, fun c hc => ?_⟩
  rw [Json.text, String.toList_ofList] at hc
  exact hline 0 c hc

/-- A function is read back from its text in either layout, all of it, if the document has no more
    levels than are followed; written again, it has the same text. Both layouts are read alike, no
    other function has the text in any layout, and the compact text has no control character but
    the line feed at its end. -/
theorem read?_render (f : FunctionDetails) (hmaps : f.parameters.Every Definition.MapsProperties) :
    (f.toJson.levels ≤ Json.nestingLimit → ∀ layout, read? (f.render layout) = some f ∧
      ∀ g, read? (f.render layout) = some g → ∀ again, g.render again = f.render again) ∧
    (∀ layout other, read? (f.render layout) = read? (f.render other)) ∧
    (∀ g : FunctionDetails, g.parameters.Every Definition.MapsProperties →
      ∀ layout other, f.render layout = g.render other → f = g) ∧
    ∃ line, f.render .compact = line ++ "\n" ∧ ∀ c ∈ line.toList, 0x20 ≤ c.toNat := by
  have hjson (layout : Json.Layout) : read? (f.render layout) = ofJson? f.toJson := by
    rw [read?, f.read?_text layout]
    rfl
  refine ⟨fun hlevels layout => ?_, fun layout other => ?_, fun g hg layout other htext => ?_,
    f.render_compact⟩
  · have hread : read? (f.render layout) = some f := by
      rw [hjson, ofJson?_toJson hmaps hlevels]
    refine ⟨hread, fun g hg again => ?_⟩
    obtain rfl := Option.some.inj (hread.symm.trans hg)
    rfl
  · rw [hjson, hjson]
  · have hjsons : some f.toJson = some g.toJson := by
      rw [← f.read?_text layout, htext, g.read?_text other]
    exact toJson_inj hmaps hg (Option.some.inj hjsons)

/-- A function with nodes below nodes, and with characters that are escaped. -/
def escapesDetails : FunctionDetails :=
  { name := "F", description := "a \"quoted\"\nline"
    parameters :=
      { type := .object
        properties := [
          ("tab\t", { type := .array
                      items := some { type := .string, enumValues := ["\\", "\x07"] } }),
          ("n", { type := .integer })]
        required := ["n"] } }

theorem read?_render_escapes :
    escapesDetails.parameters.Every Definition.MapsProperties ∧
      escapesDetails.toJson.levels ≤ Json.nestingLimit ∧
      read? (escapesDetails.render .indented) = some escapesDetails ∧
      read? (escapesDetails.render .compact) = some escapesDetails := by
  have hmaps : escapesDetails.parameters.Every Definition.MapsProperties := by
    have hleaf (type : DataType) (values : List String) : Definition.Every
        Definition.MapsProperties { type := type, enumValues := values } :=
      Definition.every_iff.mpr ⟨List.nodup_nil, nofun, nofun⟩
    refine Definition.every_iff.mpr ⟨by decide, ?_, nofun⟩
    intro name value hm
    simp only [escapesDetails, List.mem_cons, List.not_mem_nil, or_false, Prod.mk.injEq] at hm
    rcases hm with ⟨-, rfl⟩ | ⟨-, rfl⟩
    · refine Definition.every_iff.mpr ⟨List.nodup_nil, nofun, ?_⟩
      rintro element he
      obtain rfl := Option.some.inj he
      exact hleaf .string _
    · exact hleaf .integer []
  have hlevels : escapesDetails.toJson.levels ≤ Json.nestingLimit := by decide
  obtain ⟨hread, -⟩ := read?_render escapesDetails hmaps
  exact ⟨hmaps, hlevels, (hread hlevels .indented).1, (hread hlevels .compact).1⟩

end FunctionDetails

end CallSchema
