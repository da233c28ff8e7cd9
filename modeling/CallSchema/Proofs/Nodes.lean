import CallSchema.Proofs.Outcome
import CallSchema.Proofs.Properties

/-!
The nodes of a schema and what holds of each of them.

`Definition.Sound` is what makes a single node well formed. `Definition.Every P d` says that `P`
holds of every node of `d`, at whatever depth; it is kept by each operation that makes schemas out
of schemas, so it holds of whatever an expansion gives (`every_sound_typeDefinition`), and of the
schema of a function (`describeFunction?_sound`), for every provider of types.
-/

namespace CallSchema

namespace Definition

/-- `n` is the schema itself or a node below it. -/
inductive IsNode (n : Definition) : Definition → Prop
  | self : IsNode n n
  | property {d value : Definition} {name : String} (h : (name, value) ∈ d.properties)
      (below : IsNode n value) : IsNode n d
  | items {d element : Definition} (h : d.items = some element)
      (below : IsNode n element) : IsNode n d

/-- Induction on a node: a property passes from what stands right below a node to the node. -/
theorem induct {motive : Definition → Prop}
    (h : ∀ d : Definition, (∀ name value, (name, value) ∈ d.properties → motive value) →
      (∀ element, d.items = some element → motive element) → motive d) (d : Definition) :
    motive d :=
  h d (fun _ value _ => induct h value) (fun element _ => induct h element)
termination_by sizeOf d
decreasing_by
  · rename_i name hp
    have hp := List.sizeOf_lt_of_mem hp
    obtain ⟨type, description, enumValues, properties, required, items⟩ := d
    simp at hp ⊢
    omega
  · rename_i he
    obtain ⟨type, description, enumValues, properties, required, items⟩ := d
    simp at he ⊢
    subst he
    simp
    omega

/-- What makes a node well formed, whatever stands below it. -/
structure Sound (n : Definition) : Prop where
  nodup_propertyNames : n.propertyNames.Nodup
  nodup_required : n.required.Nodup
  required_subset : ∀ name ∈ n.required, name ∈ n.propertyNames
  properties_eq_nil : n.type ≠ .object → n.properties = []
  required_eq_nil : n.type ≠ .object → n.required = []
  items_isSome_iff : n.items.isSome = true ↔ n.type = .array
  nodup_enumValues : n.enumValues.Nodup
  enumValues_ne_empty : ∀ value ∈ n.enumValues, value ≠ ""

/-- The property holds of every node of the schema. -/
def Every (P : Definition → Prop) (d : Definition) : Prop := ∀ n, IsNode n d → P n

theorem every_iff {P : Definition → Prop} {d : Definition} :
    Every P d ↔ P d ∧ (∀ name value, (name, value) ∈ d.properties → Every P value) ∧
      ∀ element, d.items = some element → Every P element := by
  constructor
  · intro h
    exact ⟨h d .self, fun name value hm n hn => h n (.property hm hn),
      fun element hi n hn => h n (.items hi hn)⟩
  · rintro ⟨hd, hp, hi⟩ n (_ | ⟨hm, hn⟩ | ⟨he, hn⟩)
    · exact hd
    · exact hp _ _ hm n hn
    · exact hi _ he n hn

/-! ## Operations on schemas -/

/-- A node without anything below it, of a type that needs nothing there. -/
theorem every_sound_leaf {type : DataType} (h : type ≠ .array) :
    Every Sound { type := type } := by
  refine every_iff.mpr ⟨?_, by simp, by simp⟩
  constructor <;> simp [propertyNames, h]

theorem every_sound_array {d : Definition} (h : Every Sound d) : Every Sound (array d) := by
  refine every_iff.mpr ⟨?_, by simp [array], ?_⟩
  · constructor <;> simp [array, propertyNames]
  · rintro element he
    obtain rfl : d = element := by simpa [array] using he
    exact h

theorem every_sound_withDescription {d : Definition} (text : String) (h : Every Sound d) :
    Every Sound (d.withDescription text) := by
  obtain ⟨hd, hp, hi⟩ := every_iff.mp h
  exact every_iff.mpr ⟨⟨hd.1, hd.2, hd.3, hd.4, hd.5, hd.6, hd.7, hd.8⟩, hp, hi⟩

theorem every_sound_withEnum {d : Definition} {values : List String} (hn : values.Nodup)
    (he : ∀ value ∈ values, value ≠ "") (h : Every Sound d) : Every Sound (d.withEnum values) := by
  obtain ⟨hd, hp, hi⟩ := every_iff.mp h
  exact every_iff.mpr ⟨⟨hd.1, hd.2, hd.3, hd.4, hd.5, hd.6, hn, he⟩, hp, hi⟩

theorem sound_insertProperty {d value : Definition} {name : String} {isRequired : Bool}
    (ht : d.type = .object) (h : d.Sound) : (d.insertProperty name value isRequired).Sound where
  nodup_propertyNames := nodup_map_fst_upsert h.nodup_propertyNames
  nodup_required := nodup_requiredAfter name isRequired h.nodup_required
  required_subset other hm := by
    rw [insertProperty_required, mem_requiredAfter] at hm
    rw [propertyNames, insertProperty_properties, mem_map_fst_upsert]
    split at hm
    · exact .inl ‹_›
    · exact .inr (h.required_subset other hm)
  properties_eq_nil hne := absurd ht hne
  required_eq_nil hne := absurd ht hne
  items_isSome_iff := h.items_isSome_iff
  nodup_enumValues := h.nodup_enumValues
  enumValues_ne_empty := h.enumValues_ne_empty

theorem every_sound_insertProperty {d value : Definition} {name : String} {isRequired : Bool}
    (ht : d.type = .object) (h : Every Sound d) (hv : Every Sound value) :
    Every Sound (d.insertProperty name value isRequired) := by
  obtain ⟨hd, hp, hi⟩ := every_iff.mp h
  refine every_iff.mpr ⟨sound_insertProperty ht hd, fun other v hm => ?_, hi⟩
  rcases eq_or_mem_of_mem_upsert hm with he | hm
  · obtain rfl : v = value := congrArg Prod.snd he
    exact hv
  · exact hp other v hm

/-- An object all of whose nodes are well formed, to which properties can be added. -/
structure SoundObject (d : Definition) : Prop where
  type_eq : d.type = .object
  every : Every Sound d

theorem soundObject_object : SoundObject object := ⟨rfl, every_sound_leaf nofun⟩

theorem SoundObject.insertMany {d : Definition} {is : List Insertion} (h : SoundObject d)
    (hv : ∀ i ∈ is, Every Sound i.value) : SoundObject (d.insertMany is) := by
  induction is generalizing d with
  | nil => exact h
  | cons i is ih =>
    have hstep : SoundObject (d.insertProperty i.name i.value i.isRequired) :=
      ⟨h.type_eq, every_sound_insertProperty h.type_eq h.every (hv i List.mem_cons_self)⟩
    exact ih hstep fun j hj => hv j (List.mem_cons_of_mem i hj)

/-- The only property of a schema is well formed with it. -/
theorem every_singleProperty? {P : Definition → Prop} {d : Definition} (h : Every P d) :
    Every P (d.singleProperty?.getD d) := by
  unfold singleProperty?
  split
  · rename_i hp
    exact (every_iff.mp h).2.1 _ _ (by rw [hp]; exact List.mem_cons_self)
  · exact h

end Definition

/-! ## Expansions -/

namespace Expansion

open Definition (Every Sound SoundObject)

variable {define : TypeExpr → Expansion Definition}

theorem SoundObject.insertAll {object d : Definition} {names : List String} {isRequired : Bool}
    (ho : SoundObject object) (hd : Every Sound d) :
    SoundObject (insertAll object names d isRequired) := by
  rw [insertAll_eq_insertMany]
  refine ho.insertMany fun i hi => ?_
  obtain ⟨_, _, rfl⟩ := List.mem_map.mp hi
  exact hd

/-- The allowed values of a tag are fit for a schema. -/
theorem tagsOf_enumValues_distinct {f : FieldDecl} {label : String} {tags : FieldTags}
    {values : List String} (h : tagsOf f label = .ok tags) (hv : tags.enumValues = some values) :
    values.Nodup ∧ ∀ value ∈ values, value ≠ "" := by
  rcases tagsOf_eq_ok h with ⟨-, rfl⟩ | ⟨literal, -, hp⟩
  · simp at hv
  · exact Tag.parse_enumValues_distinct hp hv

theorem every_sound_decorate {f : FieldDecl} {label : String} {tags : FieldTags} {d : Definition}
    (ht : tagsOf f label = .ok tags) (h : Every Sound d) : Every Sound (decorate f tags d) := by
  have hvariadic : Every Sound (if f.variadic then .array d else d) := by
    split
    · exact Definition.every_sound_array h
    · exact h
  have htext : ∀ d', Every Sound d' → Every Sound
      (if f.comments.describe.isEmpty then d' else d'.withDescription f.comments.describe) := by
    intro d' hd'
    split
    · exact hd'
    · exact Definition.every_sound_withDescription _ hd'
  unfold decorate
  cases hv : tags.enumValues with
  | none => exact htext _ hvariadic
  | some values =>
    obtain ⟨hn, he⟩ := tagsOf_enumValues_distinct ht hv
    exact Definition.every_sound_withEnum hn he (htext _ hvariadic)

theorem every_sound_insertFields {fs : List FieldDecl} {object d : Definition}
    (hdef : ∀ f ∈ fs, fieldNames f ≠ [] → ∀ t, Ends (define f.type) (.ok t) → Every Sound t)
    (ho : SoundObject object) (h : Ends (insertFields define object fs) (.ok d)) :
    Every Sound d := by
  induction fs generalizing object with
  | nil =>
    obtain rfl := Except.ok.inj (ends_pure.mp h)
    exact ho.every
  | cons f fs ih =>
    have hfs : ∀ g ∈ fs, fieldNames g ≠ [] → ∀ t, Ends (define g.type) (.ok t) → Every Sound t :=
      fun g hg => hdef g (List.mem_cons_of_mem f hg)
    cases hn : fieldNames f with
    | nil =>
      rw [insertFields_blank hn] at h
      exact ih hfs ho h
    | cons label names =>
      rw [insertFields_named hn] at h
      obtain ⟨⟨value, isRequired⟩, hf, hrest⟩ := ends_bind_ok.mp h
      obtain ⟨tags, type, ht, htype, rfl, rfl⟩ := ends_field_ok.mp hf
      have hsound := hdef f List.mem_cons_self (by simp [hn]) type htype
      exact ih hfs (SoundObject.insertAll ho (every_sound_decorate ht hsound)) hrest

theorem basicType_ne_array (kind : BasicKind) : basicType kind ≠ .array := by
  cases kind <;> decide

theorem every_sound_resolvedDefinition {type : ResolvedType} {d : Definition}
    (hdef : ∀ e ∈ type.parts, ∀ t, Ends (define e) (.ok t) → Every Sound t)
    (h : Ends (resolvedDefinition define type) (.ok d)) : Every Sound d := by
  cases type with
  | basic kind =>
    obtain rfl := Except.ok.inj (ends_pure.mp h)
    exact Definition.every_sound_leaf (basicType_ne_array kind)
  | unsupported what =>
    obtain rfl := Except.ok.inj (ends_pure.mp h)
    exact Definition.every_sound_leaf nofun
  | pointer pointee => exact hdef pointee List.mem_cons_self d h
  | sequence element =>
    obtain ⟨t, ht, rfl⟩ := ends_map_ok.mp h
    exact Definition.every_sound_array (hdef element List.mem_cons_self t ht)
  | struct fields =>
    refine every_sound_insertFields (fun f hf hn => ?_) Definition.soundObject_object h
    exact hdef f.type (ResolvedType.mem_parts_struct.mpr ⟨f, hf, hn, rfl⟩)

theorem every_sound_recursiveReference {policy : CyclePolicy} {identity : String} {d : Definition}
    (h : recursiveReference policy identity = .ok d) : Every Sound d := by
  cases policy with
  | error => simp [recursiveReference] at h
  | null =>
    obtain rfl := Except.ok.inj h
    exact Definition.every_sound_withDescription _ (Definition.every_sound_leaf nofun)

theorem every_sound_typeDefinition {provider : Provider} {guard : Option CyclePolicy}
    {depth : Nat} {expanding scope : List String} {e : TypeExpr} {d : Definition}
    (h : Ends (typeDefinition provider guard depth expanding scope e) (.ok d)) : Every Sound d := by
  induction depth generalizing expanding scope e d with
  | zero => exact absurd h not_ends_tooDeep
  | succ depth ih =>
    cases hg : guarded guard expanding e with
    | some result =>
      rw [typeDefinition_caught hg] at h
      obtain ⟨policy, identity, -, -, -, rfl⟩ := guarded_eq_some hg
      exact every_sound_recursiveReference (ends_finished.mp h).symm
    | none =>
      rw [typeDefinition_passed hg] at h
      obtain ⟨type, -, htype⟩ := ends_bind_ok.mp h
      exact every_sound_resolvedDefinition (fun e _ t ht => ih ht) htype

theorem soundObject_insertParameters {ps : List FieldDecl} {position : Nat}
    {object d : Definition}
    (hdef : ∀ e t, Ends (define e) (.ok t) → Every Sound t) (ho : SoundObject object)
    (h : Ends (insertParameters define position object ps) (.ok d)) : SoundObject d := by
  induction ps generalizing position object with
  | nil =>
    obtain rfl := Except.ok.inj (ends_pure.mp h)
    exact ho
  | cons p ps ih =>
    obtain ⟨label, names, hn⟩ := exists_label position p
    rw [insertParameters_cons hn] at h
    obtain ⟨value, hp, hrest⟩ := ends_bind_ok.mp h
    obtain ⟨tags, type, ht, htype, rfl⟩ := ends_parameter_ok.mp hp
    exact ih (SoundObject.insertAll ho (every_sound_decorate ht (hdef p.type type htype))) hrest

end Expansion

open Expansion in
/-- Every node of the schema of a function is well formed, for every provider of types. -/
theorem describeFunction?_sound {provider : Provider} {depth : Nat} {name : String}
    {options : TranslateOptions} {details : FunctionDetails}
    (h : describeFunction? provider depth name options = some (.ok details)) :
    ∀ n, Definition.IsNode n details.parameters → n.Sound := by
  unfold describeFunction? at h
  split at h
  · simp at h
  · obtain ⟨object, ho, rfl⟩ := ends_function_ok.mp h
    have hsound : Definition.SoundObject object :=
      soundObject_insertParameters (fun _ _ => every_sound_typeDefinition)
        Definition.soundObject_object ho
    exact Definition.every_singleProperty? hsound.every

/-- A list of nodes: `type Node struct { Kind string; Next *Node }` with a tag at both fields, and
    `func F(head Node, more ...Node)`. -/
def listPackage : Package :=
  { units := [{ path := "list.go", decls := [
      .type { name := "Node", type := .struct [
        { names := ["Kind"], type := .named "string" [], tag := some "`enum:\"a,b\"`" },
        { names := ["Next"], type := .pointer (.named "Node" []),
          tag := some "`required:\"false\"`" }] },
      .func { name := "F", params := [
        { names := ["head"], type := .named "Node" [] },
        { names := ["more"], type := .named "Node" [], variadic := true }] }] }] }

theorem describeFunction?_sound_list :
    ∃ details, describeFunction? listPackage.provider 3 "F" {} = some (.ok details) ∧
      details.parameters.propertyNames = ["head", "more"] ∧
      ∀ n, Definition.IsNode n details.parameters → n.Sound := by
  have h : ((describeFunction? listPackage.provider 3 "F" {}).bind Except.toOption).map
      (·.parameters.propertyNames) = some ["head", "more"] := by decide +kernel
  obtain ⟨details, hd, hn⟩ := Option.map_eq_some_iff.mp h
  obtain ⟨r, hr, ho⟩ := Option.bind_eq_some_iff.mp hd
  have hr : describeFunction? listPackage.provider 3 "F" {} = some (.ok details) := by
    cases r with
    | error e => simp [Except.toOption] at ho
    | ok d =>
      obtain rfl : d = details := by simpa [Except.toOption] using ho
      exact hr
  exact ⟨details, hr, hn, describeFunction?_sound hr⟩

end CallSchema
