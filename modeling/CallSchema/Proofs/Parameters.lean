import CallSchema.Proofs.Outcome
import CallSchema.Proofs.Properties
import Mathlib.Data.List.Forall2

/-!
What the schema of a parameter list says of each parameter.

The entries of a list are its names in order, with one entry for each group that has none. An entry
that is unnamed or blank is called after its position.

1. `insertParameters_ends_ok`: an expansion that succeeds is one insertion for each entry, under the
   resolved name, of the schema of the entry's group.
2. `nodup_parameterNames_iff`: resolved names are distinct exactly if no name given to a blank entry
   is declared as well.
3. `describesEach_iff`: so the schema describes each parameter exactly under that condition.
   `describesEach_fails_on_collision` is a list of two parameters that comes out as one.
-/

namespace CallSchema.Expansion

open List (Forall₂)

variable {define : TypeExpr → Expansion Definition}

/-- The entries of a parameter list. -/
def flatEntries (ps : List FieldDecl) : List String := ps.flatMap entries

/-- The group that each of the entries stands in. -/
def flatGroups (ps : List FieldDecl) : List FieldDecl :=
  ps.flatMap fun p => (entries p).map fun _ => p

/-- The names that the parameter list declares. -/
def declaredNames (ps : List FieldDecl) : List String :=
  (ps.flatMap (·.names)).filter (· ≠ "_")

/-- The schema that the parameters of a group have, whatever name its errors are reported under. -/
def IsSchemaOf (define : TypeExpr → Expansion Definition) (p : FieldDecl) (d : Definition) : Prop :=
  ∀ label, Ends (parameter define p label) (.ok d)

/-- The schema describes the parameters one by one: there is nothing to describe, or it is the
    schema of the only parameter, or it is an object with one required property for each parameter,
    under a name of its own. A declared parameter keeps its name. -/
def DescribesEach (define : TypeExpr → Expansion Definition) (ps : List FieldDecl)
    (d : Definition) : Prop :=
  match flatGroups ps with
  | [] => d = .object
  | [p] => IsSchemaOf define p d
  | groups =>
    ∃ names schemas, Forall₂ (fun entry name => entry ≠ "_" → name = entry) (flatEntries ps) names ∧
      names.Nodup ∧ Forall₂ (IsSchemaOf define) groups schemas ∧
      d = { type := .object, properties := names.zip schemas, required := names }

/-! ## Entries and their names -/

theorem length_flatGroups (ps : List FieldDecl) :
    (flatGroups ps).length = (flatEntries ps).length := by
  simp [flatGroups, flatEntries, List.length_flatMap]

theorem filter_flatEntries (ps : List FieldDecl) :
    (flatEntries ps).filter (· ≠ "_") = declaredNames ps := by
  induction ps with
  | nil => rfl
  | cons p ps ih =>
    rw [flatEntries, List.flatMap_cons, List.filter_append, ← flatEntries, ih, declaredNames,
      declaredNames, List.flatMap_cons, List.filter_append]
    congr 1
    unfold entries
    split
    · rename_i h
      simp [List.isEmpty_iff.mp h]
    · rfl

theorem parameterNames_append (position : Nat) (es fs : List String) :
    parameterNames position (es ++ fs) =
      parameterNames position es ++ parameterNames (position + es.length) fs := by
  induction es generalizing position with
  | nil => simp [parameterNames]
  | cons e es ih =>
    rw [List.cons_append, parameterNames, parameterNames, ih, List.cons_append, List.length_cons,
      Nat.add_assoc, Nat.add_comm 1]

theorem getElem?_parameterNames (position : Nat) (es : List String) (i : Nat) :
    (parameterNames position es)[i]? = es[i]?.map (parameterName (position + i)) := by
  induction es generalizing position i with
  | nil => simp [parameterNames]
  | cons e es ih =>
    cases i with
    | zero => simp [parameterNames]
    | succ i => simp [parameterNames, ih, Nat.add_assoc, Nat.add_comm 1]

theorem parameterName_blank (position : Nat) :
    parameterName position "_" = "arg" ++ Text.decimal position := rfl

theorem parameterName_of_ne {name : String} (position : Nat) (h : name ≠ "_") :
    parameterName position name = name := if_neg h

theorem parameterName_blank_inj {i j : Nat} :
    parameterName i "_" = parameterName j "_" ↔ i = j := by
  rw [parameterName_blank, parameterName_blank]
  refine ⟨fun h => ?_, fun h => h ▸ rfl⟩
  exact Text.decimal_inj.mp (String.append_right_inj "arg" |>.mp h)

theorem parameterName_blank_ne (position : Nat) : parameterName position "_" ≠ "_" := by
  intro h
  have := congrArg String.length h
  rw [parameterName_blank, String.length_append] at this
  simp [String.length] at this
  omega

/-- If declared names are distinct, resolved names are distinct exactly if none that is given to a
    blank entry is declared. -/
theorem nodup_parameterNames_iff {es : List String} (h : (es.filter (· ≠ "_")).Nodup) :
    (parameterNames 0 es).Nodup ↔ ∀ i, es[i]? = some "_" → parameterName i "_" ∉ es := by
  rw [List.nodup_iff_getElem?_ne_getElem?, length_parameterNames]
  simp only [getElem?_parameterNames, Nat.zero_add]
  constructor
  · intro hn i hi hm
    obtain ⟨j, hj⟩ := List.mem_iff_getElem?.mp hm
    -- The name at `j` is declared, so it resolves to itself.
    have hname : parameterName j (parameterName i "_") = parameterName i "_" :=
      parameterName_of_ne j (parameterName_blank_ne i)
    rcases Nat.lt_trichotomy i j with hlt | rfl | hlt
    · refine hn i j hlt (List.getElem?_eq_some_iff.mp hj).1 ?_
      rw [hi, hj, Option.map_some, Option.map_some, hname]
    · exact parameterName_blank_ne i (Option.some.inj (hj.symm.trans hi))
    · refine hn j i hlt (List.getElem?_eq_some_iff.mp hi).1 ?_
      rw [hi, hj, Option.map_some, Option.map_some, hname]
  · intro hc i j hlt hj he
    have hi : i < es.length := Nat.lt_trans hlt hj
    rw [List.getElem?_eq_getElem hi, List.getElem?_eq_getElem hj, Option.map_some,
      Option.map_some, Option.some_inj] at he
    have hdistinct : es[i] ≠ "_" → es[j] ≠ "_" → es[i] ≠ es[j] := by
      have hp := List.pairwise_iff_getElem.mp (List.pairwise_filter.mp h) i j hi hj hlt
      simpa using hp
    by_cases hbi : es[i] = "_" <;> by_cases hbj : es[j] = "_"
    · rw [hbi, hbj, parameterName_blank_inj] at he
      omega
    · rw [hbi, parameterName_of_ne j hbj] at he
      exact hc i (by rw [List.getElem?_eq_getElem hi, hbi]) (he ▸ List.getElem_mem hj)
    · rw [hbj, parameterName_of_ne i hbi] at he
      exact hc j (by rw [List.getElem?_eq_getElem hj, hbj]) (he ▸ List.getElem_mem hi)
    · rw [parameterName_of_ne i hbi, parameterName_of_ne j hbj] at he
      exact hdistinct hbi hbj he

/-! ## The insertions -/

/-- A group's schema does not depend on the name that its errors are reported under. -/
theorem isSchemaOf_of_ends {p : FieldDecl} {label : String} {d : Definition}
    (h : Ends (parameter define p label) (.ok d)) : IsSchemaOf define p d := by
  intro label'
  obtain ⟨tags, type, ht, hd, he⟩ := ends_parameter_ok.mp h
  exact ends_parameter_ok.mpr ⟨tags, type, tagsOf_eq_ok_of_eq_ok label' ht, hd, he⟩

theorem isSchemaOf_unique {p : FieldDecl} {d d' : Definition} (hd : IsSchemaOf define p d)
    (hother : IsSchemaOf define p d') : d = d' :=
  Except.ok.inj ((hd "").unique (hother ""))

/-- The insertions of schemas under the names at their places, all of them required. -/
def parameterInsertions (names : List String) (schemas : List Definition) : List Insertion :=
  (names.zip schemas).map fun (name, d) => ⟨name, d, true⟩

theorem map_entry_parameterInsertions (names : List String) (schemas : List Definition) :
    (parameterInsertions names schemas).map Insertion.entry = names.zip schemas := by
  rw [parameterInsertions, List.map_map]
  exact List.map_id _

theorem map_name_parameterInsertions {names : List String} {schemas : List Definition}
    (h : names.length = schemas.length) :
    (parameterInsertions names schemas).map Insertion.name = names := by
  rw [parameterInsertions, List.map_map]
  exact List.map_fst_zip (Nat.le_of_eq h)

theorem filter_parameterInsertions (names : List String) (schemas : List Definition) :
    (parameterInsertions names schemas).filter (·.isRequired) =
      parameterInsertions names schemas := by
  refine List.filter_eq_self.mpr fun i hi => ?_
  obtain ⟨_, _, rfl⟩ := List.mem_map.mp hi
  rfl

theorem parameterInsertions_group {names es : List String} (d : Definition)
    (h : names.length = es.length) :
    parameterInsertions names (es.map fun _ => d) = names.map fun name => ⟨name, d, true⟩ := by
  induction names generalizing es with
  | nil => rfl
  | cons name names ih =>
    cases es with
    | nil => simp at h
    | cons e es =>
      have := ih (Nat.succ.inj h)
      simp_all [parameterInsertions]

/-- A parameter list that expands is one insertion for each entry, of the schema of its group. -/
theorem insertParameters_ends_ok {position : Nat} {object d : Definition} {ps : List FieldDecl}
    (h : Ends (insertParameters define position object ps) (.ok d)) :
    ∃ schemas, Forall₂ (IsSchemaOf define) (flatGroups ps) schemas ∧
      d = object.insertMany
        (parameterInsertions (parameterNames position (flatEntries ps)) schemas) := by
  induction ps generalizing position object with
  | nil => exact ⟨[], .nil, Except.ok.inj (ends_pure.mp h)⟩
  | cons p ps ih =>
    obtain ⟨label, names, hn⟩ := exists_label position p
    rw [insertParameters_cons hn] at h
    obtain ⟨type, hp, hrest⟩ := ends_bind_ok.mp h
    obtain ⟨schemas, hs, rfl⟩ := ih hrest
    have hgroup : Forall₂ (IsSchemaOf define) ((entries p).map fun _ => p)
        ((entries p).map fun _ => type) := by
      rw [List.forall₂_map_left_iff, List.forall₂_map_right_iff, List.forall₂_same]
      exact fun _ _ => isSchemaOf_of_ends hp
    refine ⟨(entries p).map (fun _ => type) ++ schemas, List.rel_append hgroup hs, ?_⟩
    have hl : (parameterNames position (entries p)).length =
        ((entries p).map fun _ => type).length := by
      rw [length_parameterNames, List.length_map]
    have hsplit : parameterInsertions (parameterNames position (flatEntries (p :: ps)))
        ((entries p).map (fun _ => type) ++ schemas) =
          parameterInsertions (parameterNames position (entries p))
              ((entries p).map fun _ => type) ++
            parameterInsertions (parameterNames (position + (entries p).length) (flatEntries ps))
              schemas := by
      rw [flatEntries, List.flatMap_cons, parameterNames_append, parameterInsertions,
        List.zip_append hl, List.map_append]
      rfl
    rw [hsplit, parameterInsertions_group type (length_parameterNames position (entries p)),
      Definition.insertMany_append, ← insertAll_eq_insertMany, hn]

/-! ## One description for each parameter -/

/-- Insertions under distinct names make an object that lists them all. -/
theorem insertMany_parameterInsertions {names : List String} {schemas : List Definition}
    (hl : names.length = schemas.length) (hn : names.Nodup) :
    Definition.object.insertMany (parameterInsertions names schemas) =
      { type := .object, properties := names.zip schemas, required := names } := by
  have hfresh : (Definition.object.propertyNames ++
      (parameterInsertions names schemas).map Insertion.name).Nodup := by
    rw [map_name_parameterInsertions hl]
    exact hn
  rw [Definition.insertMany_fresh (by simp [Definition.object]) hfresh,
    filter_parameterInsertions, map_name_parameterInsertions hl, map_entry_parameterInsertions]
  rfl

/-- No node is a property of itself. -/
theorem notMem_properties_self {name : String} {d : Definition} : (name, d) ∉ d.properties := by
  intro h
  have h1 := List.sizeOf_lt_of_mem h
  have h2 : sizeOf d.properties < sizeOf d := by
    cases d
    simp
    omega
  have h3 : sizeOf d < sizeOf (name, d) := by
    rw [Prod.mk.sizeOf_spec]
    omega
  omega

theorem singleProperty?_of_length_ne {object : Definition} (h : object.properties.length ≠ 1) :
    object.singleProperty? = none := by
  unfold Definition.singleProperty?
  split
  · rename_i hp
    simp [hp] at h
  · rfl

theorem properties_of_singleProperty? {object only : Definition}
    (h : object.singleProperty? = some only) : ∃ name, object.properties = [(name, only)] := by
  unfold Definition.singleProperty? at h
  split at h
  · rename_i name d hp
    exact ⟨name, Option.some.inj h ▸ hp⟩
  · simp at h

/-- A property that is the only one after the insertions is one of the schemas inserted. -/
theorem mem_of_singleProperty? {names : List String} {schemas : List Definition} {only : Definition}
    (h : (Definition.object.insertMany (parameterInsertions names schemas)).singleProperty? =
      some only) : only ∈ schemas := by
  obtain ⟨name, hp⟩ := properties_of_singleProperty? h
  have hmem := hp ▸ List.mem_singleton_self (name, only)
  obtain ⟨i, hi, he⟩ :=
    (Definition.exists_of_mem_insertMany hmem).resolve_left (by simp [Definition.object])
  have hz : (name, only) ∈ names.zip schemas := by
    rw [← map_entry_parameterInsertions, ← he]
    exact List.mem_map_of_mem hi
  exact (List.of_mem_zip hz).2

/-- No schema has all of the schemas as its properties. -/
theorem properties_ne_zip {names : List String} {schemas : List Definition} {d : Definition}
    (hl : names.length = schemas.length) (hd : d ∈ schemas) :
    d.properties ≠ names.zip schemas := by
  intro hp
  rw [← List.map_snd_zip (Nat.le_of_eq hl.symm)] at hd
  obtain ⟨⟨name, d⟩, hm, rfl⟩ := List.mem_map.mp hd
  exact notMem_properties_self (hp ▸ hm)

/-- Distinct names give each parameter its description. -/
theorem describesEach_of_nodup {ps : List FieldDecl} {names : List String}
    {schemas : List Definition}
    (hs : Forall₂ (IsSchemaOf define) (flatGroups ps) schemas)
    (hkeep : Forall₂ (fun entry name => entry ≠ "_" → name = entry) (flatEntries ps) names)
    (hn : names.Nodup) {object : Definition}
    (ho : object = Definition.object.insertMany (parameterInsertions names schemas)) :
    DescribesEach define ps (object.singleProperty?.getD object) := by
  have hl : names.length = schemas.length := by
    rw [← hkeep.length_eq, ← hs.length_eq, length_flatGroups]
  rw [insertMany_parameterInsertions hl hn] at ho
  have hlen : object.properties.length = (flatGroups ps).length := by
    rw [ho, hs.length_eq, List.length_zip]
    omega
  unfold DescribesEach
  split
  · rename_i hg
    obtain rfl : schemas = [] := by
      rw [hg] at hs
      exact List.forall₂_nil_left_iff.mp hs
    obtain rfl : names = [] := List.eq_nil_of_length_eq_zero hl
    rw [ho]
    rfl
  · rename_i p hg
    rw [hg] at hs
    obtain ⟨d, _, hd, hnil, rfl⟩ := List.forall₂_cons_left_iff.mp hs
    obtain rfl := List.forall₂_nil_left_iff.mp hnil
    obtain ⟨name, rfl⟩ := List.length_eq_one_iff.mp hl
    rw [ho]
    exact hd
  · rename_i groups hnil hone
    have hne : object.properties.length ≠ 1 := by
      rw [hlen]
      intro h1
      obtain ⟨p, hp⟩ := List.length_eq_one_iff.mp h1
      exact hone p hp
    rw [singleProperty?_of_length_ne hne]
    exact ⟨names, schemas, hkeep, hn, hs, ho⟩

/-- A schema that describes each parameter was made under distinct names. -/
theorem nodup_of_describesEach {ps : List FieldDecl} {names : List String}
    {schemas : List Definition} (hs : Forall₂ (IsSchemaOf define) (flatGroups ps) schemas)
    (hl : names.length = schemas.length) {object : Definition}
    (ho : object = Definition.object.insertMany (parameterInsertions names schemas))
    (h : DescribesEach define ps (object.singleProperty?.getD object)) : names.Nodup := by
  by_contra hn
  have hlt : object.properties.length < schemas.length := by
    have hnames : ¬ ((parameterInsertions names schemas).map Insertion.name).Nodup := by
      rwa [map_name_parameterInsertions hl]
    have hlength := Definition.length_insertMany_lt hnames
    rw [← ho, parameterInsertions, List.length_map, List.length_zip] at hlength
    omega
  -- Up to one name is always distinct, so there are several parameters.
  have hmany : 2 ≤ names.length := by
    by_contra hc
    match names, hc with
    | [], _ => exact hn List.nodup_nil
    | [_], _ => exact hn (List.nodup_singleton _)
    | _ :: _ :: _, hc => simp at hc
  have hglen := hs.length_eq
  unfold DescribesEach at h
  split at h
  · rename_i hg
    rw [hg, List.length_nil] at hglen
    omega
  · rename_i p hg
    rw [hg, List.length_singleton] at hglen
    omega
  · obtain ⟨names', schemas', hkeep, -, hs', hd⟩ := h
    have hunique : Relator.RightUnique (IsSchemaOf define) := fun _ _ _ => isSchemaOf_unique
    obtain rfl : schemas' = schemas := hunique.forall₂ hs' hs
    have hl' : names'.length = schemas'.length := by
      rw [← hkeep.length_eq, ← hs'.length_eq, length_flatGroups]
    cases hone : object.singleProperty? with
    | some only =>
      -- The only property is the schema of a parameter, so it would have itself as a property.
      rw [hone, Option.getD_some] at hd
      exact properties_ne_zip hl' (mem_of_singleProperty? (ho ▸ hone))
        (congrArg Definition.properties hd)
    | none =>
      rw [hone, Option.getD_none] at hd
      have hprops : object.properties = names'.zip schemas' := congrArg Definition.properties hd
      rw [hprops, List.length_zip] at hlt
      omega

theorem forall₂_parameterNames (position : Nat) (es : List String) :
    Forall₂ (fun entry name => entry ≠ "_" → name = entry) es (parameterNames position es) := by
  induction es generalizing position with
  | nil => exact .nil
  | cons e es ih => exact .cons (parameterName_of_ne position) (ih (position + 1))

/-- The schema of a function describes each of its parameters exactly if no name that stands in for
    a blank or missing one is declared as well. -/
theorem describesEach_iff {provider : Provider} {guard : Option CyclePolicy} {depth : Nat}
    {f : FuncDecl} {details : FunctionDetails} (hd : (declaredNames f.params).Nodup)
    (h : Ends (function provider guard depth f) (.ok details)) :
    DescribesEach (typeDefinition provider guard depth [] f.typeParams) f.params
        details.parameters ↔
      ∀ i, (flatEntries f.params)[i]? = some "_" →
        "arg" ++ Text.decimal i ∉ declaredNames f.params := by
  obtain ⟨object, ho, rfl⟩ := ends_function_ok.mp h
  obtain ⟨schemas, hs, ho⟩ := insertParameters_ends_ok ho
  have hl : (parameterNames 0 (flatEntries f.params)).length = schemas.length := by
    rw [length_parameterNames, ← length_flatGroups, hs.length_eq]
  rw [← filter_flatEntries] at hd
  have hnodup := nodup_parameterNames_iff hd
  have hmem : ∀ i, "arg" ++ Text.decimal i ∈ declaredNames f.params ↔
      parameterName i "_" ∈ flatEntries f.params := by
    intro i
    rw [← filter_flatEntries, ← parameterName_blank, List.mem_filter]
    simp [parameterName_blank_ne]
  simp only [hmem]
  rw [← hnodup]
  exact ⟨nodup_of_describesEach hs hl ho,
    fun hn => describesEach_of_nodup hs (forall₂_parameterNames 0 _) hn ho⟩

/-- A blank parameter, then two of which one is called after another place than the blank's. -/
def blankFirst : FuncDecl :=
  { name := "F"
    params := [{ names := ["_"], type := .named "int" [] },
      { names := ["a", "arg1"], type := .named "string" [] }] }

/-- Three parameters, one property each. -/
def blankFirstDetails : FunctionDetails :=
  { name := "F", description := ""
    parameters :=
      { type := .object
        properties := [("arg0", { type := .integer }), ("a", { type := .string }),
          ("arg1", { type := .string })]
        required := ["arg0", "a", "arg1"] } }

theorem describesEach_blankFirst :
    (declaredNames blankFirst.params).Nodup ∧
      Ends (function (Package.provider {}) (some .null) 1 blankFirst) (.ok blankFirstDetails) ∧
      DescribesEach (typeDefinition (Package.provider {}) (some .null) 1 [] [])
        blankFirst.params blankFirstDetails.parameters := by
  have hd : (declaredNames blankFirst.params).Nodup := by decide
  have h : Ends (function (Package.provider {}) (some .null) 1 blankFirst)
      (.ok blankFirstDetails) := by with_unfolding_all rfl
  refine ⟨hd, h, (describesEach_iff hd h).mpr fun i hi => ?_⟩
  -- Only the entry at place 0 is blank.
  rcases i with _ | _ | _ | i
  · decide
  · exact absurd hi (by decide)
  · exact absurd hi (by decide)
  · exact absurd hi (by simp [flatEntries, blankFirst, entries])

/-- A blank parameter, then one that is declared under the name that stands in for the blank. -/
def collidingBlank : FuncDecl :=
  { name := "F"
    params := [{ names := ["_"], type := .named "int" [] },
      { names := ["arg0"], type := .named "string" [] }] }

/-- Two parameters with distinct declared names, of which only the second is described. -/
theorem describesEach_fails_on_collision :
    (declaredNames collidingBlank.params).Nodup ∧
      Ends (function (Package.provider {}) (some .null) 1 collidingBlank)
        (.ok ⟨"F", "", { type := .string }⟩) ∧
      ¬ DescribesEach (typeDefinition (Package.provider {}) (some .null) 1 [] [])
        collidingBlank.params { type := .string } := by
  refine ⟨by decide, by with_unfolding_all rfl, ?_⟩
  rintro ⟨names, schemas, -, -, -, hd⟩
  have ht : DataType.string = DataType.object := congrArg Definition.type hd
  exact absurd ht (by decide)

end CallSchema.Expansion
