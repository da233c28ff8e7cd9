import CallSchema.Proofs.Faults
import CallSchema.Proofs.Nodes
import CallSchema.Proofs.Parameters
import CallSchema.Schema.Document

/-!
The values that a schema allows.

`Definition.allows d j` checks a value against a schema; `Needs d n` says that whoever makes a value
for `d` has to make one for the node `n`.

1. `Definition.exists_allows_iff`: there is a value exactly if all needed nodes that list allowed
   values are of type `string`. If so, `sample` is one.
2. `Expansion.every_stems_of_function`: a node lists allowed values only if it is the schema of a
   field or parameter whose tag lists them, and its type is what that one's type makes it.
3. `exists_allows_parameters_iff`: so a tag that lists values for anything but a string leaves
   nothing to call the function with, if the field is needed. This is not excluded
   (`allows_parameters_fails_on_count`).
-/

namespace CallSchema

/-! ## Types of values -/

namespace Json

/-- The number that decimal digits write. -/
def decimalValue (digits : List Char) : Nat :=
  digits.foldl (fun n c => 10 * n + (c.toNat - '0'.toNat)) 0

/-- Whether a number without its sign is whole, once its exponent has moved the point. -/
def isWhole? (s : List Char) : Option Bool := do
  let (whole, s) ← integerPart? s
  let (fraction, s) ← fraction? s
  let (exponent, _) ← exponent? s
  let (direction, size) := sign exponent.tail
  let digits := decimalValue (whole ++ fraction.tail)
  let places := fraction.tail.length
  let (up, down) :=
    if direction = ['-'] then (0, places + decimalValue size) else (decimalValue size, places)
  return digits * 10 ^ up % 10 ^ down = 0

/-- Whether the text is a number. -/
def isNumber (text : String) : Bool :=
  match number? text.toList with
  | some (_, rest) => rest.isEmpty
  | none => false

/-- Whether the text is a number without a fraction. -/
def isInteger (text : String) : Bool :=
  isNumber text && isWhole? (text.toList.dropWhile (· == '-')) == some true

/-- Whether the value is of the type. -/
def hasType : Json → DataType → Bool
  | .object _, .object => true
  | .array _, .array => true
  | .string _, .string => true
  | .number text, .integer => isInteger text
  | .number text, .number => isNumber text
  | .bool _, .boolean => true
  | .null, .null => true
  | _, _ => false

theorem hasType_string (value : String) (type : DataType) :
    (string value).hasType type = true ↔ type = .string := by
  cases type <;> simp [hasType]

/-- The members of an object. -/
def entries : Json → List (String × Json)
  | .object members => members
  | _ => []

/-- The elements of an array. -/
def elements : Json → List Json
  | .array items => items
  | _ => []

example : ["0", "-12", "1.0", "1.5e1", "20e-1"].map isInteger = [true, true, true, true, true] := by
  decide
example : ["", "01", "1.5", "1e-1"].map isInteger = [false, false, false, false] := by
  decide

end Json

namespace Definition

/-! ## Allowed values -/

mutual

/-- Whether the value conforms to the schema: it is of the type and one of the listed values, if
    there are any; it has the required members, and each member and element conforms to the schema
    that there is for it. -/
def allows : Definition → Json → Bool
  | ⟨type, _, enumValues, properties, required, items⟩, j =>
    j.hasType type
      && (enumValues.isEmpty || (j.string?.map enumValues.contains).getD false)
      && required.all (fun name => j.entries.any (·.1 == name))
      && allowsProperties properties j && allowsItems items j
termination_by structural d => d

/-- Whether the members of the value conform to the schemas of the properties. -/
def allowsProperties : List (String × Definition) → Json → Bool
  | [], _ => true
  | property :: rest, j => allowsProperty property j && allowsProperties rest j
termination_by structural properties => properties

/-- Whether the members of one name conform to their schema. -/
def allowsProperty : String × Definition → Json → Bool
  | (name, d), j => j.entries.all fun (key, value) => key != name || allows d value
termination_by structural property => property

/-- Whether the elements of the value conform to their schema. -/
def allowsItems : Option Definition → Json → Bool
  | none, _ => true
  | some d, j => j.elements.all (allows d)
termination_by structural items => items

end

theorem allowsProperties_iff {properties : List (String × Definition)} {j : Json} :
    allowsProperties properties j = true ↔ ∀ name d, (name, d) ∈ properties →
      ∀ value, (name, value) ∈ j.entries → d.allows value = true := by
  induction properties with
  | nil => simp [allowsProperties]
  | cons property rest ih =>
    obtain ⟨name, d⟩ := property
    rw [allowsProperties, Bool.and_eq_true, ih, allowsProperty]
    simp only [List.all_eq_true, Prod.forall, Bool.or_eq_true, bne_iff_ne, List.mem_cons,
      Prod.mk.injEq]
    constructor
    · rintro ⟨hfirst, hrest⟩ name' d' (⟨rfl, rfl⟩ | hm) value hv
      · exact (hfirst _ value hv).resolve_left (by simp)
      · exact hrest name' d' hm value hv
    · intro h
      refine ⟨fun key value hv => ?_, fun name' d' hm => h name' d' (.inr hm)⟩
      by_cases hk : key = name
      · exact .inr (h name d (.inl ⟨rfl, rfl⟩) value (hk ▸ hv))
      · exact .inl hk

theorem allowsItems_iff {items : Option Definition} {j : Json} :
    allowsItems items j = true ↔
      ∀ element, items = some element → ∀ item ∈ j.elements, element.allows item = true := by
  cases items <;> simp [allowsItems]

/-- What it takes for a value to conform to a schema. -/
theorem allows_iff {d : Definition} {j : Json} :
    d.allows j = true ↔ j.hasType d.type = true ∧
      (d.enumValues ≠ [] → ∃ value ∈ d.enumValues, j = .string value) ∧
      (∀ name ∈ d.required, ∃ value, (name, value) ∈ j.entries) ∧
      (∀ name schema, (name, schema) ∈ d.properties →
        ∀ value, (name, value) ∈ j.entries → schema.allows value = true) ∧
      ∀ element, d.items = some element → ∀ item ∈ j.elements, element.allows item = true := by
  obtain ⟨type, description, enumValues, properties, required, items⟩ := d
  have henum : (enumValues.isEmpty || (j.string?.map enumValues.contains).getD false) = true ↔
      (enumValues ≠ [] → ∃ value ∈ enumValues, j = .string value) := by
    rw [Bool.or_eq_true, List.isEmpty_iff, or_iff_not_imp_left]
    cases j <;> simp [Json.string?]
  have hrequired : required.all (fun name => j.entries.any (·.1 == name)) = true ↔
      ∀ name ∈ required, ∃ value, (name, value) ∈ j.entries := by
    simp
  rw [allows, Bool.and_eq_true, Bool.and_eq_true, Bool.and_eq_true, Bool.and_eq_true, henum,
    hrequired, allowsProperties_iff, allowsItems_iff, and_assoc, and_assoc, and_assoc]

/-- `n` is the schema itself, or a required node of the schema of a required member. -/
inductive Needs : Definition → Definition → Prop
  | self (d : Definition) : Needs d d
  | member {d value n : Definition} {name : String} (property : (name, value) ∈ d.properties)
      (required : name ∈ d.required) (below : Needs value n) : Needs d n

theorem Needs.isNode {d n : Definition} (h : Needs d n) : IsNode n d := by
  induction h with
  | self d => exact .self
  | member property _ _ ih => exact .property property ih

/-- Whoever allows a value has one for each required node. -/
theorem Needs.exists_allows {d n : Definition} (h : Needs d n) {j : Json}
    (hj : d.allows j = true) : ∃ j', n.allows j' = true := by
  induction h generalizing j with
  | self d => exact ⟨j, hj⟩
  | member property required _ ih =>
    obtain ⟨-, -, hrequired, hproperties, -⟩ := allows_iff.mp hj
    obtain ⟨value, hv⟩ := hrequired _ required
    exact ih (hproperties _ _ property value hv)

/-! ## A value for every schema -/

mutual

/-- A value for the schema, with only the required members. -/
def sample : Definition → Json
  | ⟨type, _, enumValues, properties, required, _⟩ =>
    match enumValues.head?, type with
    | some value, _ => .string value
    | none, .object => .object (sampleMembers required properties)
    | none, .array => .array []
    | none, .string => .string ""
    | none, .integer | none, .number => .number "0"
    | none, .boolean => .bool false
    | none, .null => .null
termination_by structural d => d

/-- Values for the required ones of the properties. -/
def sampleMembers (required : List String) : List (String × Definition) → List (String × Json)
  | [] => []
  | property :: rest =>
    let members := sampleMembers required rest
    if required.contains property.1 then sampleMember property :: members else members
termination_by structural properties => properties

/-- A value under the name of a property. -/
def sampleMember : String × Definition → String × Json
  | (name, d) => (name, sample d)
termination_by structural property => property

end

theorem mem_sampleMembers {required : List String} {properties : List (String × Definition)}
    {name : String} {value : Json} :
    (name, value) ∈ sampleMembers required properties ↔
      name ∈ required ∧ ∃ d, (name, d) ∈ properties ∧ d.sample = value := by
  induction properties with
  | nil => simp [sampleMembers]
  | cons property rest ih =>
    obtain ⟨key, d⟩ := property
    rw [sampleMembers, sampleMember]
    by_cases hk : key ∈ required <;> simp only [hk, List.contains_eq_mem, decide_true,
      decide_false, if_true, Bool.false_eq_true, if_false, List.mem_cons, ih, Prod.mk.injEq]
    · constructor
      · rintro (⟨rfl, rfl⟩ | ⟨hn, d', hm, hv⟩)
        · exact ⟨hk, d, .inl ⟨rfl, rfl⟩, rfl⟩
        · exact ⟨hn, d', .inr hm, hv⟩
      · rintro ⟨hn, d', ⟨rfl, rfl⟩ | hm, rfl⟩
        · exact .inl ⟨rfl, rfl⟩
        · exact .inr ⟨hn, d', hm, rfl⟩
    · constructor
      · rintro ⟨hn, d', hm, hv⟩
        exact ⟨hn, d', .inr hm, hv⟩
      · rintro ⟨hn, d', ⟨rfl, rfl⟩ | hm, rfl⟩
        · exact absurd hn hk
        · exact ⟨hn, d', hm, rfl⟩

/-- The members of the sample of an object. -/
theorem entries_sample (d : Definition) :
    d.sample.entries = if d.enumValues = [] ∧ d.type = .object
      then sampleMembers d.required d.properties else [] := by
  obtain ⟨type, description, enumValues, properties, required, items⟩ := d
  cases enumValues <;> cases type <;> rfl

theorem sample_of_enumValues {d : Definition} {value : String} {values : List String}
    (h : d.enumValues = value :: values) : d.sample = .string value := by
  obtain ⟨type, description, enumValues, properties, required, items⟩ := d
  obtain rfl : enumValues = value :: values := h
  rfl

theorem elements_sample (d : Definition) : d.sample.elements = [] := by
  obtain ⟨type, description, enumValues, properties, required, items⟩ := d
  cases enumValues <;> cases type <;> rfl

theorem hasType_sample {d : Definition} (h : d.enumValues ≠ [] → d.type = .string) :
    d.sample.hasType d.type = true := by
  obtain ⟨type, description, enumValues, properties, required, items⟩ := d
  cases enumValues with
  | nil => cases type <;> rfl
  | cons value values =>
    obtain rfl : type = .string := h nofun
    rfl

/-- The sample of a schema conforms to it, if the required nodes that list allowed values are of
    type `string`. -/
theorem allows_sample {d : Definition} (hsound : d.Every Sound)
    (h : ∀ n, Needs d n → n.enumValues ≠ [] → n.type = .string) : d.allows d.sample = true := by
  induction d using Definition.induct with
  | h d ihproperties ihitems =>
    obtain ⟨hd, hproperties, -⟩ := every_iff.mp hsound
    have hplain {name : String} {schema : Definition} (hm : (name, schema) ∈ d.properties) :
        d.enumValues = [] ∧ d.type = .object := by
      have htype : d.type = .object := by
        by_contra hne
        rw [hd.properties_eq_nil hne] at hm
        exact absurd hm List.not_mem_nil
      refine ⟨?_, htype⟩
      by_contra henum
      exact absurd (htype.symm.trans (h d (.self d) henum)) (by decide)
    refine allows_iff.mpr ⟨hasType_sample (h d (.self d)), fun henum => ?_, fun name hn => ?_,
      fun name schema hm value hv => ?_, fun element he item hitem => ?_⟩
    · obtain ⟨value, rest, hv⟩ := List.exists_cons_of_ne_nil henum
      exact ⟨value, hv ▸ List.mem_cons_self, sample_of_enumValues hv⟩
    · obtain ⟨⟨_, schema⟩, hm, rfl⟩ := List.mem_map.mp (hd.required_subset name hn)
      refine ⟨schema.sample, ?_⟩
      rw [entries_sample, if_pos (hplain hm)]
      exact mem_sampleMembers.mpr ⟨hn, schema, hm, rfl⟩
    · rw [entries_sample, if_pos (hplain hm)] at hv
      obtain ⟨hn, schema', hm', rfl⟩ := mem_sampleMembers.mp hv
      obtain rfl : schema = schema' :=
        congrArg Prod.snd (List.inj_on_of_nodup_map hd.nodup_propertyNames hm hm' rfl)
      exact ihproperties name schema hm (hproperties name schema hm)
        fun n hneeds => h n (.member hm hn hneeds)
    · rw [elements_sample] at hitem
      exact absurd hitem List.not_mem_nil

/-- A schema can be met exactly if its required nodes that list allowed values are of type
    `string`. -/
theorem exists_allows_iff {d : Definition} (hsound : d.Every Sound) :
    (∃ j, d.allows j = true) ↔ ∀ n, Needs d n → n.enumValues ≠ [] → n.type = .string := by
  constructor
  · rintro ⟨j, hj⟩ n hneeds henum
    obtain ⟨j', hj'⟩ := hneeds.exists_allows hj
    obtain ⟨htype, hvalues, -⟩ := allows_iff.mp hj'
    obtain ⟨value, -, rfl⟩ := hvalues henum
    exact (Json.hasType_string value n.type).mp htype
  · intro h
    exact ⟨d.sample, allows_sample hsound h⟩

end Definition

/-! ## Where allowed values come from -/

namespace Definition

theorem insertMany_enumValues (d : Definition) (is : List Insertion) :
    (d.insertMany is).enumValues = d.enumValues := by
  rw [insertMany_frame]

theorem insertMany_items (d : Definition) (is : List Insertion) :
    (d.insertMany is).items = d.items := by
  rw [insertMany_frame]

theorem every_insertMany {P : Definition → Prop} {is : List Insertion}
    (here : P (object.insertMany is)) (below : ∀ i ∈ is, Every P i.value) :
    Every P (object.insertMany is) := by
  refine every_iff.mpr ⟨here, fun name value hm => ?_, fun element he => ?_⟩
  · rcases exists_of_mem_insertMany hm with hm | ⟨i, hi, heq⟩
    · exact absurd hm List.not_mem_nil
    · obtain rfl : i.value = value := congrArg Prod.snd heq
      exact below i hi
  · rw [insertMany_items] at he
    exact absurd he nofun

theorem every_leaf {P : Definition → Prop} {d : Definition} (hp : d.properties = [])
    (hi : d.items = none) (here : P d) : Every P d := by
  refine every_iff.mpr ⟨here, fun name value hm => ?_, fun element he => ?_⟩
  · rw [hp] at hm
    exact absurd hm List.not_mem_nil
  · rw [hi] at he
    exact absurd he nofun

end Definition

namespace Expansion

open Definition (Every Needs Sound)

section Fields

variable {define : TypeExpr → Expansion Definition}

/-- A tag and comments touch nothing but the allowed values and the description. -/
theorem decorate_eq (g : FieldDecl) (tags : FieldTags) (t : Definition) :
    ∃ description, decorate g tags t =
      { (if g.variadic then .array t else t) with
        description := description
        enumValues := tags.enumValues.getD (if g.variadic then .array t else t).enumValues } := by
  unfold decorate
  generalize (if g.variadic then Definition.array t else t) = d
  cases d
  cases tags.enumValues <;> dsimp only <;> split <;> exact ⟨_, rfl⟩

theorem type_decorate (g : FieldDecl) (tags : FieldTags) (t : Definition) :
    (decorate g tags t).type = if g.variadic then .array else t.type := by
  obtain ⟨description, hd⟩ := decorate_eq g tags t
  rw [hd]
  cases g.variadic <;> rfl

theorem enumValues_decorate (g : FieldDecl) (tags : FieldTags) {t : Definition}
    (ht : t.enumValues = []) : (decorate g tags t).enumValues = tags.enumValues.getD [] := by
  obtain ⟨description, hd⟩ := decorate_eq g tags t
  rw [hd]
  cases g.variadic with
  | false =>
    show tags.enumValues.getD t.enumValues = _
    rw [ht]
  | true => rfl

theorem every_decorate {P : Definition → Prop} {g : FieldDecl} {tags : FieldTags} {t : Definition}
    (here : P (decorate g tags t)) (below : Every P t) : Every P (decorate g tags t) := by
  obtain ⟨-, hproperties, hitems⟩ := Definition.every_iff.mp below
  obtain ⟨description, hd⟩ := decorate_eq g tags t
  rw [hd] at here ⊢
  cases hv : g.variadic with
  | false => exact Definition.every_iff.mpr ⟨by simpa [hv] using here, hproperties, hitems⟩
  | true =>
    refine Definition.every_iff.mpr ⟨by simpa [hv] using here, nofun, fun element he => ?_⟩
    obtain rfl := Option.some.inj he
    exact below

/-- The properties of a struct are the schemas of its fields. -/
theorem exists_insertions_of_insertFields {object d : Definition} {fs : List FieldDecl}
    (hfs : ∀ g ∈ fs, ∃ label names, fieldNames g = label :: names)
    (h : Ends (insertFields define object fs) (.ok d)) :
    ∃ is, d = object.insertMany is ∧ ∀ i ∈ is, ∃ g ∈ fs, IsSchemaOf define g i.value := by
  induction fs generalizing object with
  | nil => exact ⟨[], (Except.ok.inj (ends_pure.mp h)), nofun⟩
  | cons g fs ih =>
    obtain ⟨label, names, hn⟩ := hfs g List.mem_cons_self
    rw [insertFields_named hn] at h
    obtain ⟨⟨value, isRequired⟩, hg, hrest⟩ := ends_bind_ok.mp h
    obtain ⟨is, rfl, his⟩ := ih (fun g hg => hfs g (List.mem_cons_of_mem _ hg)) hrest
    have hschema : IsSchemaOf define g value := by
      obtain ⟨tags, t, ht, htype, hd, -⟩ := ends_field_ok.mp hg
      exact isSchemaOf_of_ends (ends_parameter_ok.mpr ⟨tags, t, ht, htype, hd⟩)
    refine ⟨(label :: names).map (fun name => ⟨name, value, isRequired⟩) ++ is, ?_, fun i hi => ?_⟩
    · rw [insertAll_eq_insertMany, ← Definition.insertMany_append]
    · rcases List.mem_append.mp hi with hi | hi
      · obtain ⟨name, -, rfl⟩ := List.mem_map.mp hi
        exact ⟨g, List.mem_cons_self, hschema⟩
      · obtain ⟨g', hg', hs⟩ := his i hi
        exact ⟨g', List.mem_cons_of_mem g hg', hs⟩

theorem exists_of_forall₂ {α β : Type} {R : α → β → Prop} {as : List α} {bs : List β}
    (h : List.Forall₂ R as bs) {b : β} (hb : b ∈ bs) : ∃ a ∈ as, R a b := by
  induction h with
  | nil => exact absurd hb List.not_mem_nil
  | @cons a b' as bs hab _ ih =>
    rcases List.mem_cons.mp hb with rfl | hb
    · exact ⟨a, List.mem_cons_self, hab⟩
    · obtain ⟨a', ha', hr⟩ := ih hb
      exact ⟨a', List.mem_cons_of_mem a ha', hr⟩

theorem exists_insertions_of_insertParameters {d : Definition} {ps : List FieldDecl}
    (h : Ends (insertParameters define 0 .object ps) (.ok d)) :
    ∃ is, d = Definition.object.insertMany is ∧
      ∀ i ∈ is, ∃ g ∈ ps, IsSchemaOf define g i.value := by
  obtain ⟨schemas, hschemas, rfl⟩ := insertParameters_ends_ok h
  refine ⟨_, rfl, fun i hi => ?_⟩
  obtain ⟨⟨name, value⟩, hz, rfl⟩ := List.mem_map.mp hi
  obtain ⟨g, hg, hs⟩ := exists_of_forall₂ hschemas (List.of_mem_zip hz).2
  obtain ⟨p, hp, he⟩ := List.mem_flatMap.mp hg
  obtain ⟨_, -, rfl⟩ := List.mem_map.mp he
  exact ⟨p, hp, hs⟩

/-- All fields of a list are started if their tags can be read and their types have schemas. -/
theorem started_of_mem {fs : List FieldDecl} {g : FieldDecl}
    (hfs : ∀ g ∈ fs, ¬ MalformedTag g ∧ ∃ t, Ends (define g.type) (.ok t)) (hg : g ∈ fs) :
    Started define fs g.type := by
  induction fs with
  | nil => exact absurd hg List.not_mem_nil
  | cons first fs ih =>
    obtain ⟨hread, t, ht⟩ := hfs first List.mem_cons_self
    cases htags : tagsOf first "" with
    | error e => exact absurd ((malformedTag_iff "").mpr ⟨e, htags⟩) hread
    | ok tags =>
      rcases List.mem_cons.mp hg with rfl | hg
      · exact .head htags
      · have hfirst := ends_field_ok.mpr ⟨tags, t, htags, ht, rfl, rfl⟩
        exact .tail hfirst (ih (fun g hg => hfs g (List.mem_cons_of_mem first hg)) hg)

end Fields

section Runs

variable {provider : Provider} {policy : CyclePolicy} {f : FuncDecl} {path : List Occurrence}
  {o : Occurrence}

/-- The tag lists these as the allowed values. -/
def Lists (g : FieldDecl) (values : List String) : Prop :=
  ∃ literal tags, g.tag = some literal ∧ Tag.parse literal = .ok tags ∧
    tags.enumValues = some values

/-- The description of the function comes to a field or parameter whose type has the schema. -/
inductive ComesToField (provider : Provider) (policy : CyclePolicy) (f : FuncDecl) (g : FieldDecl)
    (t : Definition) : Prop
  | parameter (depth : Nat) (declared : g ∈ f.params)
      (typed : Ends (typeDefinition provider (some policy) depth [] f.typeParams g.type) (.ok t))
  | field (depth : Nat) {path : List Occurrence} {o : Occurrence} {fields : List FieldDecl}
      (above : Comes provider policy f path o)
      (passed : guarded (some policy) (texts path) o.expr = none)
      (resolved : provider.resolve o.scope o.expr = .ok (.struct fields))
      (named : g ∈ namedFields fields)
      (typed : Ends (typeDefinition provider (some policy) depth (texts (extended path o))
        (innerScope o.scope o.expr) g.type) (.ok t))

/-- Allowed values that the node lists are those of the tag of a field or parameter. The node is of
    that one's type, or an array if it is variadic. -/
def Stems (provider : Provider) (policy : CyclePolicy) (f : FuncDecl) (n : Definition) : Prop :=
  n.enumValues ≠ [] → ∃ g t, ComesToField provider policy f g t ∧ Lists g n.enumValues ∧
    n.type = if g.variadic then .array else t.type

theorem every_stems_of_isSchemaOf {define : TypeExpr → Expansion Definition} {g : FieldDecl}
    {d : Definition} (h : IsSchemaOf define g d)
    (hcomes : ∀ t, Ends (define g.type) (.ok t) → ComesToField provider policy f g t ∧
      t.enumValues = [] ∧ Every (Stems provider policy f) t) :
    Every (Stems provider policy f) d := by
  obtain ⟨tags, t, ht, htype, rfl⟩ := ends_parameter_ok.mp (h "")
  obtain ⟨hg, hempty, hbelow⟩ := hcomes t htype
  refine every_decorate (fun hlisted => ?_) hbelow
  rw [enumValues_decorate g tags hempty] at hlisted ⊢
  rcases tagsOf_eq_ok ht with ⟨-, rfl⟩ | ⟨literal, hliteral, hparse⟩
  · exact absurd rfl hlisted
  · cases hvalues : tags.enumValues with
    | none => exact absurd (by rw [hvalues]; rfl) hlisted
    | some values =>
      exact ⟨g, t, hg, ⟨literal, tags, hliteral, hparse, hvalues⟩, type_decorate g tags t⟩

/-- The schema of a type lists no allowed values itself, and where a node below does, they come from
    a field. -/
theorem every_stems_typeDefinition {depth : Nat} {d : Definition}
    (hc : Comes provider policy f path o)
    (h : Ends (typeDefinition provider (some policy) depth (texts path) o.scope o.expr) (.ok d)) :
    d.enumValues = [] ∧ Every (Stems provider policy f) d := by
  induction depth generalizing path o d with
  | zero => exact absurd h not_ends_tooDeep
  | succ depth ih =>
    cases hg : guarded (some policy) (texts path) o.expr with
    | some result =>
      rw [typeDefinition_caught hg] at h
      obtain ⟨policy', identity, -, -, -, rfl⟩ := guarded_eq_some hg
      cases policy' with
      | error => exact absurd (ends_finished.mp h) nofun
      | null =>
        obtain rfl := Except.ok.inj (ends_finished.mp h)
        exact ⟨rfl, Definition.every_leaf rfl rfl fun hlisted => absurd rfl hlisted⟩
    | none =>
      rw [typeDefinition_passed hg, ← texts_extended] at h
      obtain ⟨type, hresolved, htype⟩ := ends_bind_ok.mp h
      have hres := (ends_finished.mp hresolved).symm
      cases type with
      | basic _ | unsupported _ =>
        obtain rfl := Except.ok.inj (ends_pure.mp htype)
        exact ⟨rfl, Definition.every_leaf rfl rfl fun hlisted => absurd rfl hlisted⟩
      | pointer pointee => exact ih (.part depth hc hg hres (.pointer pointee)) htype
      | sequence element =>
        obtain ⟨t, ht, rfl⟩ := ends_map_ok.mp htype
        obtain ⟨-, hbelow⟩ := ih (.part depth hc hg hres (.sequence element)) ht
        refine ⟨rfl, Definition.every_iff.mpr ⟨fun hlisted => absurd rfl hlisted, nofun, ?_⟩⟩
        intro element he
        obtain rfl := Option.some.inj he
        exact hbelow
      | struct fields =>
        have hfields := ends_ok_of_structDefinition htype
        rw [resolvedDefinition_struct] at htype
        obtain ⟨is, rfl, his⟩ := exists_insertions_of_insertFields
          (fun g hg => exists_fieldNames hg) htype
        have hempty := Definition.insertMany_enumValues .object is
        refine ⟨hempty, Definition.every_insertMany (fun hlisted => absurd hempty hlisted) ?_⟩
        intro i hi
        obtain ⟨g, hnamed, hs⟩ := his i hi
        have hstarted := started_of_mem hfields hnamed
        refine every_stems_of_isSchemaOf hs fun t ht => ?_
        exact ⟨.field depth hc hg hres hnamed ht, ih (.part depth hc hg hres (.struct hstarted)) ht⟩

/-- All allowed values that the description of a function lists come from tags. -/
theorem every_stems_of_function {depth : Nat} {details : FunctionDetails}
    (h : Ends (function provider (some policy) depth f) (.ok details)) :
    Every (Stems provider policy f) details.parameters := by
  obtain ⟨object, ho, rfl⟩ := ends_function_ok.mp h
  have hparams := ends_ok_of_insertParameters ho
  obtain ⟨is, rfl, his⟩ := exists_insertions_of_insertParameters ho
  have hempty := Definition.insertMany_enumValues .object is
  refine Definition.every_singleProperty? (Definition.every_insertMany
    (fun hlisted => absurd hempty hlisted) fun i hi => ?_)
  obtain ⟨g, hg, hs⟩ := his i hi
  have hstarted := started_of_mem hparams hg
  refine every_stems_of_isSchemaOf hs fun t ht => ?_
  exact ⟨.parameter depth hg ht, every_stems_typeDefinition (.parameter depth hstarted) ht⟩

end Runs

end Expansion

open Expansion (ComesToField Lists) in
/-- The schema of a function can be met exactly if all its needed nodes that list allowed values
    are of type `string`. A node lists those of a tag, and is of the type that the field or
    parameter with the tag is of. So there is a value if all tags that list any stand at fields and
    parameters of type `string`. -/
theorem exists_allows_parameters_iff {provider : Provider} {depth : Nat} {name : String}
    {options : TranslateOptions} {details : FunctionDetails}
    (h : describeFunction? provider depth name options = some (.ok details)) :
    ((∃ j, details.parameters.allows j = true) ↔
      ∀ n, details.parameters.Needs n → n.enumValues ≠ [] → n.type = .string) ∧
    ∃ f, findFunction provider.units name options.duplicates = .ok f ∧
      (∀ n, details.parameters.Needs n → n.enumValues ≠ [] →
        ∃ g t, ComesToField provider options.cycles f g t ∧ Lists g n.enumValues ∧
          n.type = if g.variadic then .array else t.type) ∧
      ((∀ g t values, ComesToField provider options.cycles f g t → Lists g values →
          g.variadic = false ∧ t.type = .string) →
        ∃ j, details.parameters.allows j = true) := by
  have hiff := Definition.exists_allows_iff (describeFunction?_sound h)
  refine ⟨hiff, ?_⟩
  cases hf : findFunction provider.units name options.duplicates with
  | error e =>
    rw [describeFunction?, hf] at h
    exact absurd h (by simp)
  | ok f =>
    rw [describeFunction?, hf] at h
    have hstems := Expansion.every_stems_of_function h
    refine ⟨f, rfl, fun n hn => hstems n hn.isNode, fun hstrings => hiff.mpr fun n hn hlisted => ?_⟩
    obtain ⟨g, t, hg, hlists, htype⟩ := hstems n hn.isNode hlisted
    obtain ⟨hvariadic, ht⟩ := hstrings g t n.enumValues hg hlists
    rw [htype, hvariadic, ht]
    rfl

/-- `type Level struct { N int }` with a tag that makes the field optional and lists values,
    `type Options struct { Mode string; Level *Level }` with a tag that lists values for the first
    field, and `func F(o Options)`. -/
def modePackage : Package :=
  { units := [{ path := "mode.go", decls := [
      .type { name := "Level", type := .struct [
        { names := ["N"], type := .named "int" []
          tag := some "`required:\"no\" enum:\"1,2\"`" }] },
      .type { name := "Options", type := .struct [
        { names := ["Mode"], type := .named "string" [], tag := some "`enum:\"fast,slow\"`" },
        { names := ["Level"], type := .pointer (.named "Level" []) }] },
      .func { name := "F", params := [{ names := ["o"], type := .named "Options" [] }] }] }] }

/-- What becomes of `F`. -/
def modeDetails : FunctionDetails :=
  { name := "F", description := ""
    parameters :=
      { type := .object
        properties := [
          ("Mode", { type := .string, enumValues := ["fast", "slow"] }),
          ("Level", { type := .object
                      properties := [("N", { type := .integer, enumValues := ["1", "2"] })] })]
        required := ["Mode", "Level"] } }

theorem exists_allows_parameters_mode :
    describeFunction? modePackage.provider 4 "F" {} = some (.ok modeDetails) ∧
      modeDetails.parameters.allows modeDetails.parameters.sample = true ∧
      ∀ n, modeDetails.parameters.Needs n → n.enumValues ≠ [] → n.type = .string := by
  have h : describeFunction? modePackage.provider 4 "F" {} = some (.ok modeDetails) := by
    with_unfolding_all rfl
  have hsample : modeDetails.parameters.allows modeDetails.parameters.sample = true := by decide
  obtain ⟨hiff, -⟩ := exists_allows_parameters_iff h
  exact ⟨h, hsample, hiff.mp ⟨_, hsample⟩⟩

/-- `type W struct { N int }` with a tag that lists values, and `func F(w W)`. -/
def countPackage : Package :=
  { units := [{ path := "count.go", decls := [
      .type { name := "W", type := .struct [
        { names := ["N"], type := .named "int" [], tag := some "`enum:\"1,2\"`" }] },
      .func { name := "F", params := [{ names := ["w"], type := .named "W" [] }] }] }] }

/-- The number that `F` wants. -/
def countNumber : Definition := { type := .integer, enumValues := ["1", "2"] }

/-- What becomes of `F`. -/
def countDetails : FunctionDetails :=
  { name := "F", description := ""
    parameters := { type := .object, properties := [("N", countNumber)], required := ["N"] } }

/-- No value is both an integer and one of the listed strings. -/
theorem allows_parameters_fails_on_count :
    describeFunction? countPackage.provider 3 "F" {} = some (.ok countDetails) ∧
      ∀ j, countDetails.parameters.allows j = false := by
  refine ⟨by with_unfolding_all rfl, fun j => ?_⟩
  rw [Bool.eq_false_iff]
  intro hj
  have hneeds : countDetails.parameters.Needs countNumber :=
    .member List.mem_cons_self List.mem_cons_self (.self countNumber)
  obtain ⟨j', hj'⟩ := hneeds.exists_allows hj
  obtain ⟨htype, hvalues, -⟩ := Definition.allows_iff.mp hj'
  obtain ⟨value, -, rfl⟩ := hvalues nofun
  exact absurd ((Json.hasType_string value .integer).mp htype) (by decide)

end CallSchema
