import CallSchema.Proofs.Faults
import CallSchema.Proofs.Parameters

/-!
What the schema of a struct says of its fields, at every depth.

`exactObject fs schema` is the object that lists the fields one by one: a property for each of their
names, and as required those whose tag does not make them optional (`IsOptional`).

1. `insertFields_eq`: the expansion of fields is one insertion for each name, of the schema of the
   field with the name.
2. `ends_structDefinition`: so under distinct names the schema of a struct is the exact object of
   its fields, and of one property as well.
3. `depicts_of_ends`: `Depicts` says so of each struct at whatever depth of a schema; under any
   names it stays an object with all of them (`Depicts.stays_object`).
-/

namespace CallSchema.Expansion

/-! ## Optional fields -/

/-- The text up to the first comma of the first `required` value of a tag that can be read. -/
def requiredWord? (f : FieldDecl) : Option (List Char) := do
  let literal ← f.tag
  let text ← (Tag.literalText literal).toOption
  let ps ← (Tag.pairs text).toOption
  let value ← Tag.valueOf? "required" ps
  return Text.firstPiece ',' value.toList

/-- The `required` tag of the field says no, in whatever case. -/
def IsOptional (f : FieldDecl) : Prop :=
  ∃ word ∈ requiredWord? f, ∃ no ∈ ["false", "no", "0"], word.map Char.toLower = no.toList

instance : DecidablePred IsOptional := fun f =>
  inferInstanceAs (Decidable (∃ word ∈ requiredWord? f,
    ∃ no ∈ ["false", "no", "0"], word.map Char.toLower = no.toList))

theorem requiredWord?_none {f : FieldDecl} (h : f.tag = none) : requiredWord? f = none := by
  simp [requiredWord?, h]

theorem requiredWord?_some {f : FieldDecl} {literal : String} {text : List Char}
    {ps : List Tag.Pair} (h : f.tag = some literal) (ht : Tag.literalText literal = .ok text)
    (hp : Tag.pairs text = .ok ps) :
    requiredWord? f = (Tag.valueOf? "required" ps).map (Text.firstPiece ',' ·.toList) := by
  rw [requiredWord?, h]
  simp only [ht, hp, Except.toOption, Option.bind_eq_bind, Option.bind_some]
  cases Tag.valueOf? "required" ps <;> rfl

/-- A value requires a field exactly if its first word is none for no. -/
theorem isRequired_iff (value : String) :
    Tag.isRequired value = true ↔ ¬ ∃ no ∈ ["false", "no", "0"],
      (Text.firstPiece ',' value.toList).map Char.toLower = no.toList := by
  simp only [Tag.isRequired, Tag.negatives, Bool.not_eq_true', List.contains_eq_mem,
    decide_eq_false_iff_not, not_iff_not]
  constructor
  · intro h
    exact ⟨_, h, String.toList_ofList.symm⟩
  · rintro ⟨no, hm, hw⟩
    rwa [hw, String.ofList_toList]

theorem required_of_ofPairs {ps : List Tag.Pair} {tags : FieldTags}
    (h : Tag.ofPairs ps = .ok tags) :
    tags.required = ((Tag.valueOf? "required" ps).map Tag.isRequired).getD true := by
  cases hv : Tag.valueOf? "enum" ps with
  | none =>
    obtain rfl := Except.ok.inj ((Tag.ofPairs_of_none hv).symm.trans h)
    rfl
  | some value =>
    rw [Tag.ofPairs_of_some hv] at h
    cases he : Tag.enumValues value with
    | error e => simp [he, Except.map] at h
    | ok values =>
      rw [he] at h
      obtain rfl := Except.ok.inj h
      rfl

/-- The tags of a field require it exactly if it is not optional. -/
theorem required_iff {f : FieldDecl} {label : String} {tags : FieldTags}
    (h : tagsOf f label = .ok tags) : tags.required = true ↔ ¬ IsOptional f := by
  rcases tagsOf_eq_ok h with ⟨ht, rfl⟩ | ⟨literal, ht, hparse⟩
  · simp [IsOptional, requiredWord?_none ht]
  · obtain ⟨text, ps, htext, hps, hof⟩ := Tag.parse_eq_ok hparse
    rw [required_of_ofPairs hof, IsOptional, requiredWord?_some ht htext hps]
    cases Tag.valueOf? "required" ps with
    | none => simp
    | some value => simpa using isRequired_iff value

/-! ## The insertions of a struct -/

section Fields

variable {define : TypeExpr → Expansion Definition} {tags : FieldDecl → FieldTags}
  {type : FieldDecl → Definition}

/-- The names of the properties of a struct: those of its fields that are not blank, in order. -/
def memberNames (fs : List FieldDecl) : List String := fs.flatMap fieldNames

/-- The schema of a field, given its tags and the schema of its type. -/
def fieldSchema (tags : FieldDecl → FieldTags) (type : FieldDecl → Definition) (f : FieldDecl) :
    Definition :=
  decorate f (tags f) (type f)

/-- The object that lists the fields one by one, given their schemas. -/
def exactObject (fs : List FieldDecl) (schema : FieldDecl → Definition) : Definition :=
  { type := .object
    properties := fs.flatMap fun f => (fieldNames f).map (·, schema f)
    required := memberNames (fs.filter fun f => ¬ IsOptional f) }

theorem propertyNames_exactObject (fs : List FieldDecl) (schema : FieldDecl → Definition) :
    (exactObject fs schema).propertyNames = memberNames fs := by
  simp [Definition.propertyNames, exactObject, memberNames, List.map_flatMap, Function.comp_def]

/-- The expansion of fields succeeds, with these tags and these schemas of their types. -/
def Expand (define : TypeExpr → Expansion Definition) (fs : List FieldDecl)
    (tags : FieldDecl → FieldTags) (type : FieldDecl → Definition) : Prop :=
  ∀ f ∈ namedFields fs, tagsOf f "" = .ok (tags f) ∧ Ends (define f.type) (.ok (type f))

/-- The insertions that the fields make. -/
def fieldInsertions (tags : FieldDecl → FieldTags) (type : FieldDecl → Definition)
    (fs : List FieldDecl) : List Insertion :=
  fs.flatMap fun f =>
    (fieldNames f).map fun name => ⟨name, fieldSchema tags type f, (tags f).required⟩

theorem map_name_fieldInsertions (fs : List FieldDecl) :
    (fieldInsertions tags type fs).map Insertion.name = memberNames fs := by
  simp [fieldInsertions, memberNames, List.map_flatMap, Function.comp_def]

theorem map_entry_fieldInsertions (fs : List FieldDecl) :
    (fieldInsertions tags type fs).map Insertion.entry =
      fs.flatMap fun f => (fieldNames f).map (·, fieldSchema tags type f) := by
  simp [fieldInsertions, List.map_flatMap, Function.comp_def, Insertion.entry]

theorem Expand.tail {f : FieldDecl} {fs : List FieldDecl} (h : Expand define (f :: fs) tags type) :
    Expand define fs tags type := by
  intro g hg
  obtain ⟨hm, hn⟩ := List.mem_filter.mp hg
  exact h g (List.mem_filter.mpr ⟨List.mem_cons_of_mem f hm, hn⟩)

/-- The names of the fields that are not optional are those of the insertions which require. -/
theorem required_fieldInsertions {fs : List FieldDecl} (h : Expand define fs tags type) :
    ((fieldInsertions tags type fs).filter (·.isRequired)).map Insertion.name =
      memberNames (fs.filter fun f => ¬ IsOptional f) := by
  induction fs with
  | nil => rfl
  | cons f fs ih =>
    have hrest := ih h.tail
    rw [fieldInsertions, List.flatMap_cons, List.filter_append, List.map_append,
      ← fieldInsertions, hrest, List.filter_map, List.map_map]
    by_cases hn : fieldNames f = []
    · by_cases ho : IsOptional f <;> simp [hn, ho, memberNames]
    · have hnamed : f ∈ namedFields (f :: fs) :=
        List.mem_filter.mpr ⟨List.mem_cons_self, by simpa using hn⟩
      have hreq := required_iff (h f hnamed).1
      by_cases ho : IsOptional f
      · have hf : (tags f).required = false := by simpa [ho] using hreq
        simp [hf, ho, Function.comp_def]
      · have hf : (tags f).required = true := hreq.mpr ho
        simp [hf, ho, memberNames, Function.comp_def]

/-- Fields that expand are one insertion for each name, of the schema of its field. -/
theorem insertFields_eq {fs : List FieldDecl} (h : Expand define fs tags type)
    (object : Definition) :
    Ends (insertFields define object fs)
      (.ok (object.insertMany (fieldInsertions tags type fs))) := by
  induction fs generalizing object with
  | nil => exact ends_pure.mpr rfl
  | cons f fs ih =>
    rw [fieldInsertions, List.flatMap_cons, Definition.insertMany_append, ← fieldInsertions]
    cases hn : fieldNames f with
    | nil =>
      rw [insertFields_blank hn]
      exact ih h.tail object
    | cons label names =>
      have hnamed : f ∈ namedFields (f :: fs) :=
        List.mem_filter.mpr ⟨List.mem_cons_self, by simp [hn]⟩
      obtain ⟨ht, htype⟩ := h f hnamed
      have hfield : Ends (field define f "") (.ok (fieldSchema tags type f, (tags f).required)) :=
        ends_field_ok.mpr ⟨tags f, type f, ht, htype, rfl, rfl⟩
      rw [insertFields_named hn, ends_bind_ok, ← insertAll_eq_insertMany]
      exact ⟨_, ends_field_of_label label hfield, ih h.tail _⟩

/-- A struct whose expansion succeeds has fields with tags that can be read and types with
    schemas. -/
theorem exists_expand {fs : List FieldDecl} {d : Definition}
    (h : Ends (structDefinition define fs) (.ok d)) : ∃ tags type, Expand define fs tags type := by
  have hone : ∀ f ∈ namedFields fs, ∃ v : FieldTags × Definition,
      tagsOf f "" = .ok v.1 ∧ Ends (define f.type) (.ok v.2) := by
    intro f hf
    obtain ⟨hread, t, ht⟩ := ends_ok_of_structDefinition h f hf
    cases htags : tagsOf f "" with
    | error e => exact absurd ((malformedTag_iff "").mpr ⟨e, htags⟩) hread
    | ok tags => exact ⟨(tags, t), rfl, ht⟩
  have : Nonempty (FieldTags × Definition) := ⟨({}, .null)⟩
  choose! v hv using hone
  exact ⟨fun f => (v f).1, fun f => (v f).2, hv⟩

/-- Whatever the names, the object has the properties that they name, and no others. -/
theorem mem_propertyNames_struct {fs : List FieldDecl} {name : String} :
    name ∈ (Definition.object.insertMany (fieldInsertions tags type fs)).propertyNames ↔
      name ∈ memberNames fs := by
  rw [Definition.mem_propertyNames_insertMany, map_name_fieldInsertions]
  simp [Definition.propertyNames, Definition.object]

/-- Under distinct names the insertions make the exact object. -/
theorem insertMany_fieldInsertions {fs : List FieldDecl} (h : Expand define fs tags type)
    (hn : (memberNames fs).Nodup) :
    Definition.object.insertMany (fieldInsertions tags type fs) =
      exactObject fs (fieldSchema tags type) := by
  have hfresh : (Definition.object.propertyNames ++
      (fieldInsertions tags type fs).map Insertion.name).Nodup := by
    rw [map_name_fieldInsertions]
    exact hn
  rw [Definition.insertMany_fresh (by simp [Definition.object]) hfresh, map_entry_fieldInsertions,
    required_fieldInsertions h]
  rfl

/-- The schema of a struct whose field names are distinct is the exact object of its fields. -/
theorem ends_structDefinition {fs : List FieldDecl} {d : Definition} (hn : (memberNames fs).Nodup)
    (h : Ends (structDefinition define fs) (.ok d)) :
    ∃ tags type, Expand define fs tags type ∧ d = exactObject fs (fieldSchema tags type) := by
  obtain ⟨tags, type, hexpand⟩ := exists_expand h
  have hd := (insertFields_eq hexpand .object).unique h
  rw [insertMany_fieldInsertions hexpand hn] at hd
  exact ⟨tags, type, hexpand, (Except.ok.inj hd).symm⟩

end Fields

/-! ## Every depth -/

section Types

variable {provider : Provider} {guard : Option CyclePolicy} {depth : Nat}
  {expanding scope : List String} {e : TypeExpr} {d : Definition}

/-- The schema depicts the type expression, and so do the schemas in it at every depth: that of a
    struct is an object with the names of its fields, and if these are distinct, the exact object.
    Only the guard leaves a type out. -/
inductive Depicts (provider : Provider) (guard : Option CyclePolicy) :
    (expanding scope : List String) → TypeExpr → Definition → Prop
  | caught {expanding scope : List String} {e : TypeExpr} {d : Definition}
      (h : guarded guard expanding e = some (.ok d)) : Depicts provider guard expanding scope e d
  | basic {expanding scope : List String} {e : TypeExpr} {kind : BasicKind}
      (passed : guarded guard expanding e = none)
      (resolved : provider.resolve scope e = .ok (.basic kind)) :
      Depicts provider guard expanding scope e { type := basicType kind }
  | unsupported {expanding scope : List String} {e : TypeExpr} {what : String}
      (passed : guarded guard expanding e = none)
      (resolved : provider.resolve scope e = .ok (.unsupported what)) :
      Depicts provider guard expanding scope e .null
  | pointer {expanding scope : List String} {e pointee : TypeExpr} {d : Definition}
      (passed : guarded guard expanding e = none)
      (resolved : provider.resolve scope e = .ok (.pointer pointee))
      (below : Depicts provider guard (entered expanding e) (innerScope scope e) pointee d) :
      Depicts provider guard expanding scope e d
  | sequence {expanding scope : List String} {e element : TypeExpr} {d : Definition}
      (passed : guarded guard expanding e = none)
      (resolved : provider.resolve scope e = .ok (.sequence element))
      (below : Depicts provider guard (entered expanding e) (innerScope scope e) element d) :
      Depicts provider guard expanding scope e (.array d)
  | struct {expanding scope : List String} {e : TypeExpr} {fields : List FieldDecl}
      {d : Definition} (tags : FieldDecl → FieldTags) (type : FieldDecl → Definition)
      (passed : guarded guard expanding e = none)
      (resolved : provider.resolve scope e = .ok (.struct fields))
      (read : ∀ f ∈ namedFields fields, tagsOf f "" = .ok (tags f))
      (below : ∀ f ∈ namedFields fields,
        Depicts provider guard (entered expanding e) (innerScope scope e) f.type (type f))
      (object : d.type = .object)
      (names : ∀ name, name ∈ d.propertyNames ↔ name ∈ memberNames fields)
      (exact : (memberNames fields).Nodup → d = exactObject fields (fieldSchema tags type)) :
      Depicts provider guard expanding scope e d

theorem depicts_of_ends
    (h : Ends (typeDefinition provider guard depth expanding scope e) (.ok d)) :
    Depicts provider guard expanding scope e d := by
  induction depth generalizing expanding scope e d with
  | zero => exact absurd h not_ends_tooDeep
  | succ depth ih =>
    cases hg : guarded guard expanding e with
    | some r =>
      rw [typeDefinition_caught hg] at h
      exact .caught (hg.trans (congrArg some (ends_finished.mp h).symm))
    | none =>
      rw [typeDefinition_passed hg] at h
      obtain ⟨resolved, hresolved, hd⟩ := ends_bind_ok.mp h
      have hr := (ends_finished.mp hresolved).symm
      cases resolved with
      | basic kind =>
        obtain rfl := Except.ok.inj (ends_pure.mp hd)
        exact .basic hg hr
      | unsupported what =>
        obtain rfl := Except.ok.inj (ends_pure.mp hd)
        exact .unsupported hg hr
      | pointer pointee => exact .pointer hg hr (ih hd)
      | sequence element =>
        obtain ⟨t, ht, rfl⟩ := ends_map_ok.mp hd
        exact .sequence hg hr (ih ht)
      | struct fields =>
        obtain ⟨tags, type, hexpand⟩ := exists_expand hd
        obtain rfl := Except.ok.inj ((insertFields_eq hexpand .object).unique hd)
        exact .struct tags type hg hr (fun f hf => (hexpand f hf).1)
          (fun f hf => ih (hexpand f hf).2) (Definition.insertMany_type ..)
          (fun name => mem_propertyNames_struct) (insertMany_fieldInsertions hexpand)

/-- A struct that the guard lets pass stays an object with the names of its fields, be it one
    field. -/
theorem Depicts.stays_object {fields : List FieldDecl}
    (h : Depicts provider guard expanding scope e d) (passed : guarded guard expanding e = none)
    (resolved : provider.resolve scope e = .ok (.struct fields)) :
    d.type = .object ∧ (∀ name, name ∈ d.propertyNames ↔ name ∈ memberNames fields) ∧
      ((memberNames fields).Nodup → d.propertyNames = memberNames fields) := by
  cases h with
  | caught hg => exact absurd (passed.symm.trans hg) nofun
  | basic _ hr | unsupported _ hr | pointer _ hr _ | sequence _ hr _ =>
    exact absurd (resolved.symm.trans hr) nofun
  | struct tags type _ hr _ _ object names exact =>
    obtain rfl := ResolvedType.struct.inj (Except.ok.inj (resolved.symm.trans hr))
    refine ⟨object, names, fun hn => ?_⟩
    rw [exact hn, propertyNames_exactObject]

end Types

/-- Structs are described field by field, at every depth.

    Of a list of fields with distinct names, the schema is an object with a property for each of
    the names in order, which is the schema of its field; the names of the fields that are not
    optional are required, in the same order. In the schema of a type, this holds of every struct
    at whatever depth that is not caught; and whatever names it has and however many, it stays an
    object with all of them. -/
theorem structDefinition_exact (provider : Provider) (guard : Option CyclePolicy) (depth : Nat)
    (expanding scope : List String) :
    (∀ fields d, (memberNames fields).Nodup →
      Ends (structDefinition (typeDefinition provider guard depth expanding scope) fields) (.ok d) →
      d.type = .object ∧ d.propertyNames = memberNames fields ∧
        d.required = memberNames (fields.filter fun f => ¬ IsOptional f) ∧
        ∃ tags type, Expand (typeDefinition provider guard depth expanding scope) fields tags type ∧
          d = exactObject fields (fieldSchema tags type)) ∧
    ∀ e d, Ends (typeDefinition provider guard depth expanding scope e) (.ok d) →
      Depicts provider guard expanding scope e d ∧
        ∀ fields, guarded guard expanding e = none →
          provider.resolve scope e = .ok (.struct fields) →
          d.type = .object ∧ (∀ name, name ∈ d.propertyNames ↔ name ∈ memberNames fields) ∧
            ((memberNames fields).Nodup → d.propertyNames = memberNames fields) := by
  constructor
  · intro fields d hn h
    obtain ⟨tags, type, hexpand, rfl⟩ := ends_structDefinition hn h
    exact ⟨rfl, propertyNames_exactObject fields _, rfl, tags, type, hexpand, rfl⟩
  · intro e d h
    have hdepicts := depicts_of_ends h
    exact ⟨hdepicts, fun fields passed resolved => hdepicts.stays_object passed resolved⟩

/-- `type Inner struct { N int }`, a struct of one field. -/
def innerPackage : Package :=
  { units := [{ path := "inner.go", decls := [
      .type { name := "Inner", type := .struct [{ names := ["N"], type := .named "int" [] }] }] }] }

/-- `A, B Inner; _ int; C []Inner; D string`, where the tag of `C` says no. -/
def outerFields : List FieldDecl :=
  [{ names := ["A", "B"], type := .named "Inner" [] },
    { names := ["_"], type := .named "int" [] },
    { names := ["C"], type := .slice (.named "Inner" []), tag := some "`required:\"No,x\"`" },
    { names := ["D"], type := .named "string" [], tag := some "`required:\"never\"`" }]

/-- The schema of `Inner`. -/
def innerSchema : Definition :=
  { type := .object, properties := [("N", { type := .integer })], required := ["N"] }

/-- The schema of a struct with the fields. -/
def outerSchema : Definition :=
  { type := .object
    properties := [("A", innerSchema), ("B", innerSchema), ("C", .array innerSchema),
      ("D", { type := .string })]
    required := ["A", "B", "D"] }

theorem structDefinition_exact_outer :
    (memberNames outerFields).Nodup ∧
      Ends (structDefinition (typeDefinition innerPackage.provider (some .null) 3 [] [])
        outerFields) (.ok outerSchema) ∧
      outerSchema.propertyNames = memberNames outerFields ∧
      Depicts innerPackage.provider (some .null) [] [] (.struct outerFields) outerSchema ∧
      Ends (typeDefinition innerPackage.provider (some .null) 3 [] [] (.named "Inner" []))
        (.ok innerSchema) ∧ innerSchema.type = .object := by
  have hn : (memberNames outerFields).Nodup := by decide
  have h : Ends (structDefinition (typeDefinition innerPackage.provider (some .null) 3 [] [])
      outerFields) (.ok outerSchema) := by with_unfolding_all rfl
  have houter : Ends (typeDefinition innerPackage.provider (some .null) 4 [] []
      (.struct outerFields)) (.ok outerSchema) := by with_unfolding_all rfl
  have hinner : Ends (typeDefinition innerPackage.provider (some .null) 3 [] []
      (.named "Inner" [])) (.ok innerSchema) := by with_unfolding_all rfl
  obtain ⟨hfields, htypes⟩ := structDefinition_exact innerPackage.provider (some .null) 3 [] []
  obtain ⟨-, hnames, -⟩ := hfields outerFields outerSchema hn h
  obtain ⟨-, hdeeper⟩ := structDefinition_exact innerPackage.provider (some .null) 4 [] []
  obtain ⟨hdepicts, -⟩ := hdeeper (.struct outerFields) outerSchema houter
  obtain ⟨-, hkept⟩ := htypes (.named "Inner" []) innerSchema hinner
  obtain ⟨htype, -⟩ := hkept [{ names := ["N"], type := .named "int" [] }] rfl
    (by with_unfolding_all rfl)
  exact ⟨hn, h, hnames, hdepicts, hinner, htype⟩

end CallSchema.Expansion
