import CallSchema.Proofs.Renaming

/-!
Schemas and errors that are alike: the same but for the texts of types in recursive references.

`Alike R x y` says the like of two expansions: both went too deep, or both came to values that `R`
relates, or to errors that are alike.

1. `alike_insertFields`, `alike_insertParameters`: fields and parameters whose types are changed
   come to alike schemas, if the types that are started do.
2. `alike_resolvedDefinition`: the same for what a type is underneath, and what it is underneath
   with its names renamed.
3. `Started.of_alike`, `PartStarted.of_alike`: and the same types are started.
-/

namespace CallSchema

open List (Forall₂)

/-- Entries of one name with related values. -/
inductive EntryRel {α β : Type} (R : α → β → Prop) : String × α → String × β → Prop
  | of (name : String) {a : α} {b : β} (h : R a b) : EntryRel R (name, a) (name, b)

theorem forall₂_upsert {α β : Type} {R : α → β → Prop} {key : String} {a : α} {b : β}
    {as : List (String × α)} {bs : List (String × β)} (h : Forall₂ (EntryRel R) as bs)
    (hab : R a b) : Forall₂ (EntryRel R) (upsert key a as) (upsert key b bs) := by
  induction h with
  | nil => exact .cons (.of key hab) .nil
  | @cons _ _ as bs hentry hrest ih =>
    obtain ⟨name, hvalue⟩ := hentry
    by_cases hname : name = key
    · rw [upsert, upsert, if_pos hname, if_pos hname]
      exact .cons (.of key hab) hrest
    · rw [upsert, upsert, if_neg hname, if_neg hname]
      exact .cons (.of name hvalue) ih

/-- Descriptions that are equal, or those of two recursive references. -/
inductive TextAlike : String → String → Prop
  | same (text : String) : TextAlike text text
  | reference (identity identity' : String) :
      TextAlike ("recursive reference to " ++ identity) ("recursive reference to " ++ identity')

/-- Schemas that differ in nothing but the descriptions of recursive references. -/
inductive Definition.Alike : Definition → Definition → Prop
  | node {d d' : Definition} (type : d.type = d'.type)
      (description : TextAlike d.description d'.description)
      (enumValues : d.enumValues = d'.enumValues) (required : d.required = d'.required)
      (properties : Forall₂ (EntryRel Alike) d.properties d'.properties)
      (items : Option.Rel Alike d.items d'.items) : Alike d d'

namespace Definition.Alike

variable {d d' : Definition}

theorem leaf (type : DataType) : Alike { type := type } { type := type } :=
  .node rfl (.same "") rfl rfl .nil .none

theorem array (h : Alike d d') : Alike (.array d) (.array d') :=
  .node rfl (.same "") rfl rfl .nil (.some h)

theorem withDescription (h : Alike d d') {text text' : String} (ht : TextAlike text text') :
    Alike (d.withDescription text) (d'.withDescription text') := by
  cases h with
  | node type _ enumValues required properties items =>
    exact .node type ht enumValues required properties items

theorem withEnum (h : Alike d d') (values : List String) :
    Alike (d.withEnum values) (d'.withEnum values) := by
  cases h with
  | node type description _ required properties items =>
    exact .node type description rfl required properties items

theorem insertProperty (h : Alike d d') (name : String) {value value' : Definition}
    (hvalue : Alike value value') (isRequired : Bool) :
    Alike (d.insertProperty name value isRequired) (d'.insertProperty name value' isRequired) := by
  cases h with
  | node type description enumValues required properties items =>
    refine .node type description enumValues ?_ (forall₂_upsert properties hvalue) items
    rw [insertProperty_required, insertProperty_required, required]

theorem singleProperty? (h : Alike d d') :
    Alike (d.singleProperty?.getD d) (d'.singleProperty?.getD d') := by
  have hwhole := h
  obtain ⟨_, _, _, properties, _, _⟩ := d
  obtain ⟨_, _, _, properties', _, _⟩ := d'
  cases h with
  | node _ _ _ _ hproperties _ =>
    cases hproperties with
    | nil => exact hwhole
    | cons first rest =>
      obtain ⟨name, hvalue⟩ := first
      cases rest with
      | nil => exact hvalue
      | cons _ _ => exact hwhole

end Definition.Alike

/-- Errors that differ in nothing but the text of a recursive type. -/
inductive SchemaError.Alike : SchemaError → SchemaError → Prop
  | same (e : SchemaError) : Alike e e
  | recursive (name name' : String) : Alike (.recursiveType name) (.recursiveType name')
  | parameter (label : String) {e e' : SchemaError} (h : Alike e e') :
      Alike (.parameter label e) (.parameter label e')

/-- Alike errors are of one kind. -/
theorem SchemaError.Alike.kind_eq {e e' : SchemaError} (h : e.Alike e') : e.kind = e'.kind := by
  induction h with
  | same _ => rfl
  | recursive _ _ => rfl
  | parameter _ _ ih => exact ih

/-- Descriptions of functions that differ in nothing but the descriptions of recursive
    references. -/
structure FunctionDetails.Alike (d d' : FunctionDetails) : Prop where
  name : d.name = d'.name
  description : d.description = d'.description
  parameters : d.parameters.Alike d'.parameters

namespace Expansion

variable {α β γ δ : Type} {R : α → β → Prop} {S : γ → δ → Prop} {x : Expansion α}
  {y : Expansion β}

/-- Expansions that come to related values or to alike errors, or both go too deep. -/
inductive Alike (R : α → β → Prop) (x : Expansion α) (y : Expansion β) : Prop
  | deep (hx : ¬ Halts x) (hy : ¬ Halts y)
  | ok {a : α} {b : β} (hx : Ends x (.ok a)) (hy : Ends y (.ok b)) (h : R a b)
  | error {e e' : SchemaError} (hx : Ends x (.error e)) (hy : Ends y (.error e'))
      (h : e.Alike e')

theorem alike_tooDeep : Alike R tooDeep tooDeep :=
  .deep (fun ⟨_, h⟩ => not_ends_tooDeep h) fun ⟨_, h⟩ => not_ends_tooDeep h

theorem alike_pure {a : α} {b : β} (h : R a b) : Alike R (pure a) (pure b) :=
  .ok (ends_pure.mpr rfl) (ends_pure.mpr rfl) h

theorem alike_finished (r : Except SchemaError α) : Alike Eq (finished r) (finished r) := by
  cases r with
  | error e => exact .error (ends_finished.mpr rfl) (ends_finished.mpr rfl) (.same e)
  | ok a => exact .ok (ends_finished.mpr rfl) (ends_finished.mpr rfl) rfl

theorem Alike.bind {f : α → Expansion γ} {g : β → Expansion δ} (h : Alike R x y)
    (hfg : ∀ a b, Ends x (.ok a) → R a b → Alike S (f a) (g b)) :
    Alike S (x >>= f) (y >>= g) := by
  cases h with
  | deep hx hy => exact .deep (fun h => hx h.of_bind) fun h => hy h.of_bind
  | error hx hy he =>
    exact .error (ends_bind_error.mpr (.inl hx)) (ends_bind_error.mpr (.inl hy)) he
  | @ok a b hx hy hr =>
    cases hfg a b hx hr with
    | deep hf hg => exact .deep (fun h => hf (h.of_bind_ok hx)) fun h => hg (h.of_bind_ok hy)
    | ok hf hg hs =>
      exact .ok (ends_bind_ok.mpr ⟨a, hx, hf⟩) (ends_bind_ok.mpr ⟨b, hy, hg⟩) hs
    | error hf hg he =>
      exact .error (ends_bind_error.mpr (.inr ⟨a, hx, hf⟩)) (ends_bind_error.mpr (.inr ⟨b, hy, hg⟩))
        he

theorem Alike.map {f : α → γ} {g : β → δ} (h : Alike R x y) (hfg : ∀ a b, R a b → S (f a) (g b)) :
    Alike S (f <$> x) (g <$> y) := by
  rw [← bind_pure_comp, ← bind_pure_comp]
  exact h.bind fun a b _ hr => alike_pure (hfg a b hr)

theorem Alike.mapError {f : SchemaError → SchemaError}
    (hf : ∀ e e', e.Alike e' → (f e).Alike (f e')) (h : Alike R x y) :
    Alike R (Expansion.mapError f x) (Expansion.mapError f y) := by
  cases h with
  | deep hx hy => exact .deep (fun h => hx h.of_mapError) fun h => hy h.of_mapError
  | ok hx hy hr => exact .ok (ends_mapError_ok.mpr hx) (ends_mapError_ok.mpr hy) hr
  | error hx hy he =>
    exact .error (ends_mapError_error.mpr ⟨_, hx, rfl⟩) (ends_mapError_error.mpr ⟨_, hy, rfl⟩)
      (hf _ _ he)

/-! ## The functions of an expansion -/

section Functions

variable {define define' : TypeExpr → Expansion Definition} {change : TypeExpr → TypeExpr}

theorem alike_decorate {d d' : Definition} (f : FieldDecl) (tags : FieldTags) (h : d.Alike d') :
    (decorate f tags d).Alike (decorate (f.mapType change) tags d') := by
  have hseq : (if f.variadic then .array d else d).Alike
      (if f.variadic then .array d' else d') := by
    split
    · exact h.array
    · exact h
  have htext : ∀ {e e' : Definition}, e.Alike e' →
      (if f.comments.describe.isEmpty then e else e.withDescription f.comments.describe).Alike
        (if f.comments.describe.isEmpty then e' else e'.withDescription f.comments.describe) := by
    intro e e' he
    split
    · exact he
    · exact he.withDescription (.same _)
  unfold decorate
  cases tags.enumValues with
  | none => exact htext hseq
  | some values => exact (htext hseq).withEnum values

/-- Schemas of fields with whether they are required. -/
def ValueAlike (v v' : Definition × Bool) : Prop := v.1.Alike v'.1 ∧ v.2 = v'.2

theorem alike_field {f : FieldDecl} {label : String}
    (h : ∀ tags, tagsOf f label = .ok tags →
      Alike Definition.Alike (define f.type) (define' (change f.type))) :
    Alike ValueAlike (field define f label) (field define' (f.mapType change) label) := by
  refine (alike_finished (tagsOf f label)).bind fun tags tags' ht he => ?_
  subst he
  exact (h tags (ends_finished.mp ht).symm).bind fun d d' _ hd =>
    alike_pure ⟨alike_decorate f tags hd, rfl⟩

theorem alike_insertAll {object object' d d' : Definition} (names : List String)
    (ho : object.Alike object') (hd : d.Alike d') (isRequired : Bool) :
    (insertAll object names d isRequired).Alike (insertAll object' names d' isRequired) := by
  induction names generalizing object object' with
  | nil => exact ho
  | cons name names ih => exact ih (ho.insertProperty name hd isRequired)

theorem alike_insertFields {fs : List FieldDecl} {object object' : Definition}
    (hfs : ∀ f ∈ fs, ∃ label names, fieldNames f = label :: names)
    (h : ∀ e, Started define fs e → Alike Definition.Alike (define e) (define' (change e)))
    (ho : object.Alike object') :
    Alike Definition.Alike (insertFields define object fs)
      (insertFields define' object' (fs.map (FieldOf.mapType change))) := by
  induction fs generalizing object object' with
  | nil => exact alike_pure ho
  | cons f fs ih =>
    obtain ⟨label, names, hn⟩ := hfs f List.mem_cons_self
    have hn' : fieldNames (f.mapType change) = label :: names := hn
    rw [List.map_cons, insertFields_named hn, insertFields_named hn']
    have hf : Alike ValueAlike (field define f label) (field define' (f.mapType change) label) :=
      alike_field fun tags ht => h f.type (.head ht)
    refine hf.bind ?_
    rintro ⟨d, isRequired⟩ ⟨d', _⟩ hvalue ⟨hd, rfl⟩
    exact ih (fun g hg => hfs g (List.mem_cons_of_mem f hg)) (fun e he => h e (.tail hvalue he))
      (alike_insertAll _ ho hd _)

theorem alike_insertParameters {ps : List FieldDecl} (position : Nat)
    {object object' : Definition}
    (h : ∀ e, Started define ps e → Alike Definition.Alike (define e) (define' (change e)))
    (ho : object.Alike object') :
    Alike Definition.Alike (insertParameters define position object ps)
      (insertParameters define' position object' (ps.map (FieldOf.mapType change))) := by
  induction ps generalizing position object object' with
  | nil => exact alike_pure ho
  | cons p ps ih =>
    obtain ⟨label, names, hn⟩ := exists_label position p
    have hn' : parameterNames position (entries (p.mapType change)) = label :: names := hn
    rw [List.map_cons, insertParameters_cons hn, insertParameters_cons hn']
    have hp : Alike Definition.Alike (parameter define p label)
        (parameter define' (p.mapType change) label) :=
      ((alike_field fun tags ht => h p.type (.head ht)).map fun _ _ hv => hv.1).mapError
        fun _ _ he => .parameter label he
    refine hp.bind fun d d' hd hdd => ih _ (fun e he => ?_) (alike_insertAll _ ho hdd _)
    -- A parameter comes to the schema of its field, so the later ones are started after a field.
    obtain ⟨value, hf, -⟩ := ends_map_ok.mp (ends_mapError_ok.mp hd)
    exact h e (.tail hf he)

theorem namedFields_map (change : TypeExpr → TypeExpr) (fs : List FieldDecl) :
    namedFields (fs.map (FieldOf.mapType change)) =
      (namedFields fs).map (FieldOf.mapType change) :=
  List.filter_map

theorem alike_resolvedDefinition {τ : String → String} {type type' : ResolvedType}
    (h : ∀ e, PartStarted define type e →
      Alike Definition.Alike (define e) (define' (e.renamed τ)))
    (hr : Package.Renames τ (.ok type) (.ok type')) :
    Alike Definition.Alike (resolvedDefinition define type) (resolvedDefinition define' type') := by
  cases hr with
  | basic kind => exact alike_pure (.leaf _)
  | unsupported _ _ => exact alike_pure (.leaf _)
  | pointer e => exact h e (.pointer e)
  | sequence e => exact (h e (.sequence e)).map fun _ _ hd => hd.array
  | struct fields =>
    rw [resolvedDefinition_struct, resolvedDefinition_struct, namedFields_map]
    exact alike_insertFields (fun f hf => exists_fieldNames hf) (fun e he => h e (.struct he))
      (.leaf _)

/-- What is started stays so, if the types that are started before come to alike schemas. -/
theorem Started.of_alike {fs : List FieldDecl} {e : TypeExpr}
    (h : ∀ e, Started define fs e → Alike Definition.Alike (define e) (define' (change e)))
    (hs : Started define fs e) : Started define' (fs.map (FieldOf.mapType change)) (change e) := by
  induction hs with
  | head ht => exact .head ht
  | @tail f fs label value e hf _ ih =>
    have hfield : Alike ValueAlike (field define f label)
        (field define' (f.mapType change) label) := alike_field fun tags ht => h f.type (.head ht)
    have hrest := ih fun e he => h e (.tail hf he)
    cases hfield with
    | deep hx _ => exact absurd hf.halts hx
    | ok _ hy _ => exact .tail hy hrest
    | error hx _ _ => exact absurd (hf.unique hx) nofun

theorem PartStarted.of_alike {τ : String → String} {type type' : ResolvedType} {e : TypeExpr}
    (h : ∀ e, PartStarted define type e →
      Alike Definition.Alike (define e) (define' (e.renamed τ)))
    (hr : Package.Renames τ (.ok type) (.ok type')) (hs : PartStarted define type e) :
    PartStarted define' type' (e.renamed τ) := by
  cases hs with
  | pointer =>
    cases hr
    exact .pointer _
  | sequence =>
    cases hr
    exact .sequence _
  | struct hs =>
    cases hr
    refine .struct ?_
    rw [namedFields_map]
    exact hs.of_alike fun e he => h e (.struct he)

theorem alike_recursiveReference (policy : CyclePolicy) (identity identity' : String) :
    Alike Definition.Alike (finished (recursiveReference policy identity))
      (finished (recursiveReference policy identity')) := by
  cases policy with
  | null =>
    exact .ok (ends_finished.mpr rfl) (ends_finished.mpr rfl)
      ((Definition.Alike.leaf .null).withDescription (.reference identity identity'))
  | error =>
    exact .error (ends_finished.mpr rfl) (ends_finished.mpr rfl) (.recursive identity identity')

end Functions

end Expansion

end CallSchema
