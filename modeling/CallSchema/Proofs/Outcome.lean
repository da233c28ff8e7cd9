import CallSchema.Expansion

/-!
How expansions end.

`Ends x r` says that the expansion `x` comes to the end `r`, which is a value or an error; one that
went too deep has no end. Each way of putting expansions together has a rule for its ends, and each
function of an expansion has one for the relations that later proofs are about:

1. `Halts x`: there is an end;
2. `Refines E x y`: `y` has every end of `x` that is a value or an error of the class `E`.

Both pass from the types that a resolved type holds (`ResolvedType.parts`) to its schema and to that
of an expression which resolves to it, and from the types of parameters to the description of a
function. An expansion that meets an error goes no further, so both ask only about the types that
are started (`Started`, `PartStarted`).
-/

namespace CallSchema.Expansion

variable {α β : Type}

/-- The expansion comes to this end. -/
def Ends (x : Expansion α) (r : Except SchemaError α) : Prop := ExceptT.run x = some r

/-- The expansion comes to an end. -/
def Halts (x : Expansion α) : Prop := ∃ r, Ends x r

theorem Ends.unique {x : Expansion α} {r r' : Except SchemaError α} (h : Ends x r)
    (h' : Ends x r') : r = r' :=
  Option.some.inj (h.symm.trans h')

theorem Ends.halts {x : Expansion α} {r : Except SchemaError α} (h : Ends x r) : Halts x := ⟨r, h⟩

theorem not_ends_tooDeep {r : Except SchemaError α} : ¬ Ends tooDeep r := nofun

theorem ends_finished {r s : Except SchemaError α} : Ends (finished r) s ↔ s = r :=
  Option.some_inj.trans eq_comm

theorem ends_pure {a : α} {r : Except SchemaError α} : Ends (pure a) r ↔ r = .ok a :=
  Option.some_inj.trans eq_comm

theorem ends_bind {x : Expansion α} {f : α → Expansion β} {r : Except SchemaError β} :
    Ends (x >>= f) r ↔
      (∃ a, Ends x (.ok a) ∧ Ends (f a) r) ∨ ∃ e, Ends x (.error e) ∧ r = .error e := by
  unfold Ends
  rw [ExceptT.run_bind]
  rcases ExceptT.run x with _ | (e | a) <;> simp [eq_comm]

theorem ends_bind_ok {x : Expansion α} {f : α → Expansion β} {b : β} :
    Ends (x >>= f) (.ok b) ↔ ∃ a, Ends x (.ok a) ∧ Ends (f a) (.ok b) := by
  simp [ends_bind]

theorem ends_bind_error {x : Expansion α} {f : α → Expansion β} {e : SchemaError} :
    Ends (x >>= f) (.error e) ↔
      Ends x (.error e) ∨ ∃ a, Ends x (.ok a) ∧ Ends (f a) (.error e) := by
  simp [ends_bind, or_comm]

theorem ends_map_ok {x : Expansion α} {f : α → β} {b : β} :
    Ends (f <$> x) (.ok b) ↔ ∃ a, Ends x (.ok a) ∧ f a = b := by
  simp [← bind_pure_comp, ends_bind_ok, ends_pure, eq_comm]

theorem ends_map_error {x : Expansion α} {f : α → β} {e : SchemaError} :
    Ends (f <$> x) (.error e) ↔ Ends x (.error e) := by
  simp [← bind_pure_comp, ends_bind_error, ends_pure]

theorem ends_mapError_ok {x : Expansion α} {f : SchemaError → SchemaError} {a : α} :
    Ends (mapError f x) (.ok a) ↔ Ends x (.ok a) := by
  unfold Ends mapError
  rcases ExceptT.run x with _ | (e | b)
  · exact Iff.rfl
  · show some (Except.error (f e)) = some (.ok a) ↔ some (Except.error e) = some (.ok a)
    simp
  · exact Iff.rfl

theorem ends_mapError_error {x : Expansion α} {f : SchemaError → SchemaError} {e : SchemaError} :
    Ends (mapError f x) (.error e) ↔ ∃ cause, Ends x (.error cause) ∧ f cause = e := by
  unfold Ends mapError
  rcases ExceptT.run x with _ | (c | b)
  · show none = some (Except.error e) ↔ _
    simp
  · show some (Except.error (f c)) = some (Except.error e) ↔ _
    simp
  · show some (Except.ok b) = some (Except.error e) ↔ _
    simp

/-! ## The functions of an expansion -/

section Functions

variable {define : TypeExpr → Expansion Definition}

theorem ends_field_ok {f : FieldDecl} {label : String} {d : Definition} {isRequired : Bool} :
    Ends (field define f label) (.ok (d, isRequired)) ↔
      ∃ tags type, tagsOf f label = .ok tags ∧ Ends (define f.type) (.ok type) ∧
        decorate f tags type = d ∧ tags.required = isRequired := by
  simp [field, ends_bind_ok, ends_map_ok, ends_finished, eq_comm]

theorem ends_field_error {f : FieldDecl} {label : String} {e : SchemaError} :
    Ends (field define f label) (.error e) ↔
      tagsOf f label = .error e ∨
        ∃ tags, tagsOf f label = .ok tags ∧ Ends (define f.type) (.error e) := by
  simp [field, ends_bind_error, ends_map_error, ends_finished, eq_comm]

/-- The name under which a field reports its errors does not matter if there are none. -/
theorem ends_field_of_label {f : FieldDecl} {label : String} {value : Definition × Bool}
    (label' : String) (h : Ends (field define f label) (.ok value)) :
    Ends (field define f label') (.ok value) := by
  obtain ⟨tags, type, ht, hd, he⟩ := ends_field_ok.mp h
  exact ends_field_ok.mpr ⟨tags, type, tagsOf_eq_ok_of_eq_ok label' ht, hd, he⟩

theorem ends_parameter_ok {p : FieldDecl} {label : String} {d : Definition} :
    Ends (parameter define p label) (.ok d) ↔
      ∃ tags type, tagsOf p label = .ok tags ∧ Ends (define p.type) (.ok type) ∧
        decorate p tags type = d := by
  rw [parameter, ends_mapError_ok, ends_map_ok]
  constructor
  · rintro ⟨⟨d', isRequired⟩, h, rfl⟩
    obtain ⟨tags, type, ht, hd, he, -⟩ := ends_field_ok.mp h
    exact ⟨tags, type, ht, hd, he⟩
  · rintro ⟨tags, type, ht, hd, he⟩
    exact ⟨(d, tags.required), ends_field_ok.mpr ⟨tags, type, ht, hd, he, rfl⟩, rfl⟩

theorem ends_parameter_error {p : FieldDecl} {label : String} {e : SchemaError} :
    Ends (parameter define p label) (.error e) ↔
      ∃ cause, Ends (field define p label) (.error cause) ∧ .parameter label cause = e := by
  simp [parameter, ends_mapError_error, ends_map_error]

theorem insertFields_blank {object : Definition} {f : FieldDecl} {fs : List FieldDecl}
    (h : fieldNames f = []) :
    insertFields define object (f :: fs) = insertFields define object fs := by
  simp [insertFields, h]

theorem insertFields_named {object : Definition} {f : FieldDecl} {fs : List FieldDecl}
    {label : String} {names : List String} (h : fieldNames f = label :: names) :
    insertFields define object (f :: fs) =
      field define f label >>= fun (d, isRequired) =>
        insertFields define (insertAll object (label :: names) d isRequired) fs := by
  simp only [insertFields, h]

theorem length_parameterNames (position : Nat) (names : List String) :
    (parameterNames position names).length = names.length := by
  induction names generalizing position with
  | nil => rfl
  | cons name names ih => simp [parameterNames, ih]

theorem entries_ne_nil (p : FieldDecl) : entries p ≠ [] := by
  unfold entries
  split
  · simp
  · simp_all

/-- The first resolved name of a group, under which its errors are reported. -/
theorem exists_label (position : Nat) (p : FieldDecl) :
    ∃ label names, parameterNames position (entries p) = label :: names := by
  have h : (parameterNames position (entries p)).length ≠ 0 := by
    rw [length_parameterNames]
    exact mt List.length_eq_zero_iff.mp (entries_ne_nil p)
  obtain ⟨label, names, hn⟩ := List.exists_cons_of_length_pos (Nat.pos_of_ne_zero h)
  exact ⟨label, names, hn⟩

theorem insertParameters_cons {position : Nat} {object : Definition} {p : FieldDecl}
    {ps : List FieldDecl} {label : String} {names : List String}
    (h : parameterNames position (entries p) = label :: names) :
    insertParameters define position object (p :: ps) =
      parameter define p label >>= fun d =>
        insertParameters define (position + (entries p).length)
          (insertAll object (label :: names) d true) ps := by
  simp only [insertParameters, h]

end Functions

section Types

variable {provider : Provider} {guard : Option CyclePolicy} {expanding scope : List String}
  {e : TypeExpr}

theorem typeDefinition_caught {r : Except SchemaError Definition}
    (h : guarded guard expanding e = some r) (depth : Nat) :
    typeDefinition provider guard (depth + 1) expanding scope e = finished r := by
  rw [typeDefinition, h]

theorem typeDefinition_passed (h : guarded guard expanding e = none) (depth : Nat) :
    typeDefinition provider guard (depth + 1) expanding scope e =
      finished (provider.resolve scope e) >>= resolvedDefinition
        (typeDefinition provider guard depth (entered expanding e) (innerScope scope e)) := by
  rw [typeDefinition, h]

end Types

theorem ends_function_ok {provider : Provider} {guard : Option CyclePolicy} {depth : Nat}
    {f : FuncDecl} {details : FunctionDetails} :
    Ends (function provider guard depth f) (.ok details) ↔
      ∃ object, Ends (insertParameters (typeDefinition provider guard depth [] f.typeParams) 0
          .object f.params) (.ok object) ∧
        details = ⟨f.name, f.doc.describe, object.singleProperty?.getD object⟩ := by
  simp [function, parameters, ends_map_ok, eq_comm]

end CallSchema.Expansion

namespace CallSchema

/-- The fields that become properties. -/
def Expansion.namedFields (fs : List FieldDecl) : List FieldDecl :=
  fs.filter fun f => Expansion.fieldNames f ≠ []

/-- The types that the schema of a resolved type is made of. -/
def ResolvedType.parts : ResolvedType → List TypeExpr
  | .basic _ => []
  | .pointer pointee => [pointee]
  | .sequence element => [element]
  | .struct fields => (Expansion.namedFields fields).map (·.type)
  | .unsupported _ => []

theorem ResolvedType.mem_parts_struct {fields : List FieldDecl} {e : TypeExpr} :
    e ∈ (ResolvedType.struct fields).parts ↔
      ∃ f ∈ fields, Expansion.fieldNames f ≠ [] ∧ f.type = e := by
  simp [ResolvedType.parts, Expansion.namedFields, and_assoc]

end CallSchema

namespace CallSchema.Expansion

variable {α β : Type}

/-! ## What is started -/

section Started

variable {define : TypeExpr → Expansion Definition}

/-- The expansion of fields or parameters comes to a type: those before it expand, and its own tag
    can be read. -/
inductive Started (define : TypeExpr → Expansion Definition) : List FieldDecl → TypeExpr → Prop
  | head {f : FieldDecl} {fs : List FieldDecl} {label : String} {tags : FieldTags}
      (ht : tagsOf f label = .ok tags) : Started define (f :: fs) f.type
  | tail {f : FieldDecl} {fs : List FieldDecl} {label : String} {value : Definition × Bool}
      {e : TypeExpr} (hf : Ends (field define f label) (.ok value)) (h : Started define fs e) :
      Started define (f :: fs) e

/-- The expansion of a resolved type comes to a type in it. -/
inductive PartStarted (define : TypeExpr → Expansion Definition) : ResolvedType → TypeExpr → Prop
  | pointer (e : TypeExpr) : PartStarted define (.pointer e) e
  | sequence (e : TypeExpr) : PartStarted define (.sequence e) e
  | struct {fields : List FieldDecl} {e : TypeExpr} (h : Started define (namedFields fields) e) :
      PartStarted define (.struct fields) e

theorem Started.exists_mem {fs : List FieldDecl} {e : TypeExpr} (h : Started define fs e) :
    ∃ f ∈ fs, f.type = e := by
  induction h with
  | head _ => exact ⟨_, List.mem_cons_self, rfl⟩
  | tail _ _ ih =>
    obtain ⟨f, hf, he⟩ := ih
    exact ⟨f, List.mem_cons_of_mem _ hf, he⟩

theorem PartStarted.mem_parts {type : ResolvedType} {e : TypeExpr} (h : PartStarted define type e) :
    e ∈ type.parts := by
  cases h with
  | pointer => exact List.mem_cons_self
  | sequence => exact List.mem_cons_self
  | struct h =>
    obtain ⟨f, hf, he⟩ := h.exists_mem
    exact List.mem_map.mpr ⟨f, hf, he⟩

theorem insertFields_namedFields (object : Definition) (fs : List FieldDecl) :
    insertFields define object fs = insertFields define object (namedFields fs) := by
  induction fs generalizing object with
  | nil => rfl
  | cons f fs ih =>
    cases hn : fieldNames f with
    | nil =>
      have hskip : namedFields (f :: fs) = namedFields fs := by simp [namedFields, hn]
      rw [insertFields_blank hn, hskip, ih]
    | cons label names =>
      have hkeep : namedFields (f :: fs) = f :: namedFields fs := by simp [namedFields, hn]
      rw [insertFields_named hn, hkeep, insertFields_named hn]
      exact congrArg _ (funext fun _ => ih _)

/-- A struct is described by the fields that have a name. -/
theorem resolvedDefinition_struct (fs : List FieldDecl) :
    resolvedDefinition define (.struct fs) = insertFields define .object (namedFields fs) :=
  insertFields_namedFields .object fs

theorem exists_fieldNames {f : FieldDecl} {fs : List FieldDecl} (h : f ∈ namedFields fs) :
    ∃ label names, fieldNames f = label :: names := by
  obtain ⟨-, hn⟩ := List.mem_filter.mp h
  exact List.exists_cons_of_ne_nil (by simpa using hn)

end Started

/-! ## Coming to an end -/

theorem halts_pure (a : α) : Halts (pure a) := ⟨_, ends_pure.mpr rfl⟩

theorem halts_finished (r : Except SchemaError α) : Halts (finished r) := ⟨_, ends_finished.mpr rfl⟩

theorem Halts.bind {x : Expansion α} {f : α → Expansion β} (hx : Halts x)
    (hf : ∀ a, Ends x (.ok a) → Halts (f a)) : Halts (x >>= f) := by
  obtain ⟨e | a, h⟩ := hx
  · exact ⟨.error e, ends_bind.mpr (.inr ⟨e, h, rfl⟩)⟩
  · obtain ⟨r, hr⟩ := hf a h
    exact ⟨r, ends_bind.mpr (.inl ⟨a, h, hr⟩)⟩

theorem Halts.map {x : Expansion α} (f : α → β) (hx : Halts x) : Halts (f <$> x) := by
  rw [← bind_pure_comp]
  exact hx.bind fun a _ => halts_pure (f a)

theorem Halts.mapError {x : Expansion α} (f : SchemaError → SchemaError) (hx : Halts x) :
    Halts (mapError f x) := by
  obtain ⟨e | a, h⟩ := hx
  · exact ⟨_, ends_mapError_error.mpr ⟨e, h, rfl⟩⟩
  · exact ⟨_, ends_mapError_ok.mpr h⟩

theorem Halts.of_bind {x : Expansion α} {f : α → Expansion β} (h : Halts (x >>= f)) : Halts x := by
  obtain ⟨r, hr⟩ := h
  rcases ends_bind.mp hr with ⟨a, hx, -⟩ | ⟨e, hx, -⟩
  · exact hx.halts
  · exact hx.halts

theorem Halts.of_bind_ok {x : Expansion α} {f : α → Expansion β} {a : α} (h : Halts (x >>= f))
    (hx : Ends x (.ok a)) : Halts (f a) := by
  obtain ⟨r, hr⟩ := h
  rcases ends_bind.mp hr with ⟨a', hx', hf⟩ | ⟨e, hx', -⟩
  · obtain rfl := Except.ok.inj (hx.unique hx')
    exact hf.halts
  · exact absurd (hx.unique hx') nofun

theorem Halts.of_map {x : Expansion α} {f : α → β} (h : Halts (f <$> x)) : Halts x := by
  rw [← bind_pure_comp] at h
  exact h.of_bind

theorem Halts.of_mapError {x : Expansion α} {f : SchemaError → SchemaError}
    (h : Halts (Expansion.mapError f x)) : Halts x := by
  obtain ⟨e | a, hr⟩ := h
  · obtain ⟨cause, hx, -⟩ := ends_mapError_error.mp hr
    exact hx.halts
  · exact (ends_mapError_ok.mp hr).halts

section Halting

variable {define : TypeExpr → Expansion Definition}

theorem halts_field {f : FieldDecl} {label : String} :
    Halts (field define f label) ↔ ∀ tags, tagsOf f label = .ok tags → Halts (define f.type) := by
  constructor
  · intro h tags ht
    exact (h.of_bind_ok (ends_finished.mpr ht.symm)).of_bind
  · intro h
    refine (halts_finished _).bind fun tags ht => ?_
    exact (h tags (ends_finished.mp ht).symm).bind fun _ _ => halts_pure _

/-- A list of fields halts exactly if the types that it starts do. -/
theorem halts_insertFields {fs : List FieldDecl}
    (hfs : ∀ f ∈ fs, ∃ label names, fieldNames f = label :: names) (object : Definition) :
    Halts (insertFields define object fs) ↔ ∀ e, Started define fs e → Halts (define e) := by
  constructor
  · intro h e he
    induction he generalizing object with
    | @head f fs _ tags ht =>
      obtain ⟨label, names, hn⟩ := hfs f List.mem_cons_self
      rw [insertFields_named hn] at h
      exact halts_field.mp h.of_bind tags (tagsOf_eq_ok_of_eq_ok label ht)
    | @tail f fs _ value _ hf _ ih =>
      obtain ⟨label, names, hn⟩ := hfs f List.mem_cons_self
      rw [insertFields_named hn] at h
      have hrest := h.of_bind_ok (ends_field_of_label label hf)
      exact ih (fun g hg => hfs g (List.mem_cons_of_mem f hg)) _ hrest
  · intro h
    induction fs generalizing object with
    | nil => exact halts_pure object
    | cons f fs ih =>
      obtain ⟨label, names, hn⟩ := hfs f List.mem_cons_self
      rw [insertFields_named hn]
      refine (halts_field.mpr fun tags ht => h f.type (.head ht)).bind fun value hf => ?_
      exact ih (fun g hg => hfs g (List.mem_cons_of_mem f hg)) _ fun e he => h e (.tail hf he)

/-- A resolved type halts exactly if the types in it that it starts do. -/
theorem halts_resolvedDefinition {type : ResolvedType} :
    Halts (resolvedDefinition define type) ↔
      ∀ e, PartStarted define type e → Halts (define e) := by
  cases type with
  | basic kind => exact iff_of_true (halts_pure _) nofun
  | unsupported what => exact iff_of_true (halts_pure _) nofun
  | pointer pointee => exact ⟨fun | h, _, .pointer _ => h, fun h => h pointee (.pointer pointee)⟩
  | sequence element =>
    exact ⟨fun | h, _, .sequence _ => h.of_map, fun h => (h element (.sequence element)).map _⟩
  | struct fields =>
    rw [resolvedDefinition_struct, halts_insertFields fun f hf => exists_fieldNames hf]
    exact ⟨fun | h, e, .struct hs => h e hs, fun h e hs => h e (.struct hs)⟩

/-- A parameter list halts exactly if the types that it starts do. -/
theorem halts_insertParameters {ps : List FieldDecl} (position : Nat) (object : Definition) :
    Halts (insertParameters define position object ps) ↔
      ∀ e, Started define ps e → Halts (define e) := by
  constructor
  · intro h e he
    induction he generalizing position object with
    | @head p ps _ tags ht =>
      obtain ⟨label, names, hn⟩ := exists_label position p
      rw [insertParameters_cons hn] at h
      exact halts_field.mp h.of_bind.of_mapError.of_map tags (tagsOf_eq_ok_of_eq_ok label ht)
    | @tail p ps _ value _ hf _ ih =>
      obtain ⟨label, names, hn⟩ := exists_label position p
      rw [insertParameters_cons hn] at h
      have hp : Ends (parameter define p label) (.ok value.1) :=
        ends_mapError_ok.mpr (ends_map_ok.mpr ⟨value, ends_field_of_label label hf, rfl⟩)
      exact ih _ _ (h.of_bind_ok hp)
  · intro h
    induction ps generalizing position object with
    | nil => exact halts_pure object
    | cons p ps ih =>
      obtain ⟨label, names, hn⟩ := exists_label position p
      rw [insertParameters_cons hn]
      have hp : Halts (field define p label) := halts_field.mpr fun tags ht => h p.type (.head ht)
      refine ((hp.map _).mapError _).bind fun d hd => ?_
      obtain ⟨value, hf, -⟩ := ends_map_ok.mp (ends_mapError_ok.mp hd)
      exact ih _ _ fun e he => h e (.tail hf he)

end Halting

theorem halts_typeDefinition {provider : Provider} {guard : Option CyclePolicy} {depth : Nat}
    {expanding scope : List String} {e : TypeExpr}
    (h : ∀ type, provider.resolve scope e = .ok type → ∀ part,
      PartStarted (typeDefinition provider guard depth (entered expanding e) (innerScope scope e))
        type part →
      Halts (typeDefinition provider guard depth (entered expanding e) (innerScope scope e) part)) :
    Halts (typeDefinition provider guard (depth + 1) expanding scope e) := by
  cases hg : guarded guard expanding e with
  | some r =>
    rw [typeDefinition_caught hg]
    exact halts_finished r
  | none =>
    rw [typeDefinition_passed hg]
    refine (halts_finished _).bind fun type htype => halts_resolvedDefinition.mpr ?_
    exact h type (ends_finished.mp htype).symm

/-- What halts and was let pass was entered, and halts there. -/
theorem Halts.of_passed {provider : Provider} {guard : Option CyclePolicy} {depth : Nat}
    {expanding scope : List String} {e : TypeExpr} {type : ResolvedType}
    (h : Halts (typeDefinition provider guard depth expanding scope e))
    (hg : guarded guard expanding e = none) (hr : provider.resolve scope e = .ok type) :
    ∃ m, depth = m + 1 ∧ Halts (resolvedDefinition
      (typeDefinition provider guard m (entered expanding e) (innerScope scope e)) type) := by
  cases depth with
  | zero =>
    obtain ⟨r, hr⟩ := h
    exact absurd hr not_ends_tooDeep
  | succ m =>
    rw [typeDefinition_passed hg] at h
    exact ⟨m, rfl, h.of_bind_ok (ends_finished.mpr hr.symm)⟩

/-- A function halts exactly if the types that its parameters start do. -/
theorem halts_function {provider : Provider} {guard : Option CyclePolicy} {depth : Nat}
    {f : FuncDecl} : Halts (function provider guard depth f) ↔
      ∀ e, Started (typeDefinition provider guard depth [] f.typeParams) f.params e →
        Halts (typeDefinition provider guard depth [] f.typeParams e) := by
  rw [← halts_insertParameters 0 .object]
  constructor
  · exact fun h => h.of_bind.of_bind
  · exact fun h => (h.bind fun _ _ => halts_pure _).bind fun _ _ => halts_pure _

/-! ## Refinement -/

/-- Every end of `x` that is a value, or an error of the class `E`, is the end of `y`. -/
def Refines (E : SchemaError → Prop) (x y : Expansion α) : Prop :=
  ∀ r, Ends x r → (∀ e, r = .error e → E e) → Ends y r

section Refinement

variable {E : SchemaError → Prop}

theorem Refines.refl (x : Expansion α) : Refines E x x := fun _ h _ => h

theorem Refines.bind {x y : Expansion α} {f g : α → Expansion β} (hxy : Refines E x y)
    (hfg : ∀ a, Ends x (.ok a) → Refines E (f a) (g a)) : Refines E (x >>= f) (y >>= g) := by
  intro r hr hE
  rcases ends_bind.mp hr with ⟨a, hx, hf⟩ | ⟨e, hx, rfl⟩
  · exact ends_bind.mpr (.inl ⟨a, hxy _ hx (by simp), hfg a hx r hf hE⟩)
  · exact ends_bind.mpr (.inr ⟨e, hxy _ hx (by simpa using hE), rfl⟩)

theorem Refines.map {x y : Expansion α} (f : α → β) (h : Refines E x y) :
    Refines E (f <$> x) (f <$> y) := by
  rw [← bind_pure_comp, ← bind_pure_comp]
  exact h.bind fun _ _ => Refines.refl _

theorem Refines.mapError {x y : Expansion α} {f : SchemaError → SchemaError}
    (hf : ∀ e, E (f e) → E e) (h : Refines E x y) : Refines E (mapError f x) (mapError f y) := by
  rintro (e | a) hr hE
  · obtain ⟨cause, hx, rfl⟩ := ends_mapError_error.mp hr
    refine ends_mapError_error.mpr ⟨cause, h _ hx ?_, rfl⟩
    simpa using hf cause (hE _ rfl)
  · exact ends_mapError_ok.mpr (h _ (ends_mapError_ok.mp hr) (by simp))

variable {define define' : TypeExpr → Expansion Definition}

theorem refines_field {f : FieldDecl} {label : String}
    (h : ∀ tags, tagsOf f label = .ok tags → Refines E (define f.type) (define' f.type)) :
    Refines E (field define f label) (field define' f label) :=
  (Refines.refl _).bind fun tags ht =>
    (h tags (ends_finished.mp ht).symm).bind fun _ _ => Refines.refl _

theorem refines_parameter {p : FieldDecl} {label : String}
    (hE : ∀ e, E (.parameter label e) → E e)
    (h : ∀ tags, tagsOf p label = .ok tags → Refines E (define p.type) (define' p.type)) :
    Refines E (parameter define p label) (parameter define' p label) :=
  ((refines_field h).map _).mapError hE

theorem refines_insertFields {fs : List FieldDecl} (object : Definition)
    (hfs : ∀ f ∈ fs, ∃ label names, fieldNames f = label :: names)
    (h : ∀ e, Started define fs e → Refines E (define e) (define' e)) :
    Refines E (insertFields define object fs) (insertFields define' object fs) := by
  induction fs generalizing object with
  | nil => exact Refines.refl _
  | cons f fs ih =>
    obtain ⟨label, names, hn⟩ := hfs f List.mem_cons_self
    rw [insertFields_named hn, insertFields_named hn]
    have hf : Refines E (field define f label) (field define' f label) :=
      refines_field fun tags ht => h f.type (.head ht)
    exact hf.bind fun value hvalue =>
      ih _ (fun g hg => hfs g (List.mem_cons_of_mem f hg)) fun e he => h e (.tail hvalue he)

theorem refines_resolvedDefinition {type : ResolvedType}
    (h : ∀ e, PartStarted define type e → Refines E (define e) (define' e)) :
    Refines E (resolvedDefinition define type) (resolvedDefinition define' type) := by
  cases type with
  | basic kind => exact Refines.refl _
  | unsupported what => exact Refines.refl _
  | pointer pointee => exact h pointee (.pointer pointee)
  | sequence element => exact (h element (.sequence element)).map _
  | struct fields =>
    rw [resolvedDefinition_struct, resolvedDefinition_struct]
    exact refines_insertFields .object (fun f hf => exists_fieldNames hf) fun e he =>
      h e (.struct he)

theorem refines_insertParameters {ps : List FieldDecl} (position : Nat) (object : Definition)
    (hE : ∀ label e, E (.parameter label e) → E e)
    (h : ∀ e, Started define ps e → Refines E (define e) (define' e)) :
    Refines E (insertParameters define position object ps)
      (insertParameters define' position object ps) := by
  induction ps generalizing position object with
  | nil => exact Refines.refl _
  | cons p ps ih =>
    obtain ⟨label, names, hn⟩ := exists_label position p
    rw [insertParameters_cons hn, insertParameters_cons hn]
    have hp : Refines E (parameter define p label) (parameter define' p label) :=
      refines_parameter (hE label) fun tags ht => h p.type (.head ht)
    refine hp.bind fun d hd => ih _ _ fun e he => ?_
    obtain ⟨value, hf, -⟩ := ends_map_ok.mp (ends_mapError_ok.mp hd)
    exact h e (.tail hf he)

theorem refines_typeDefinition {provider : Provider} {guard guard' : Option CyclePolicy}
    {depth depth' : Nat} {expanding expanding' scope scope' : List String} {e : TypeExpr}
    (hg : guarded guard expanding e = none) (hg' : guarded guard' expanding' e = none)
    (hr : provider.resolve scope e = provider.resolve scope' e)
    (h : ∀ type, provider.resolve scope e = .ok type → ∀ part,
      PartStarted (typeDefinition provider guard depth (entered expanding e) (innerScope scope e))
        type part →
      Refines E
        (typeDefinition provider guard depth (entered expanding e) (innerScope scope e) part)
        (typeDefinition provider guard' depth' (entered expanding' e) (innerScope scope' e)
          part)) :
    Refines E (typeDefinition provider guard (depth + 1) expanding scope e)
      (typeDefinition provider guard' (depth' + 1) expanding' scope' e) := by
  rw [typeDefinition_passed hg, typeDefinition_passed hg', ← hr]
  exact (Refines.refl _).bind fun type htype =>
    refines_resolvedDefinition (h type (ends_finished.mp htype).symm)

theorem refines_function {provider : Provider} {guard guard' : Option CyclePolicy}
    {depth depth' : Nat} {f : FuncDecl} (hE : ∀ label e, E (.parameter label e) → E e)
    (h : ∀ e, Started (typeDefinition provider guard depth [] f.typeParams) f.params e →
      Refines E (typeDefinition provider guard depth [] f.typeParams e)
        (typeDefinition provider guard' depth' [] f.typeParams e)) :
    Refines E (function provider guard depth f) (function provider guard' depth' f) :=
  ((refines_insertParameters 0 .object hE h).bind fun _ _ => Refines.refl _).bind
    fun _ _ => Refines.refl _

/-- What is started stays so if the types have their ends at least. -/
theorem Started.mono {fs : List FieldDecl} {e : TypeExpr}
    (hd : ∀ e r, Ends (define e) r → Ends (define' e) r) (h : Started define fs e) :
    Started define' fs e := by
  induction h with
  | head ht => exact .head ht
  | @tail f _ label _ _ hf _ ih =>
    have hfield : Refines (fun _ => True) (field define f label) (field define' f label) :=
      refines_field fun _ _ r hr _ => hd f.type r hr
    exact .tail (hfield _ hf fun _ _ => trivial) ih

theorem PartStarted.mono {type : ResolvedType} {e : TypeExpr}
    (hd : ∀ e r, Ends (define e) r → Ends (define' e) r) (h : PartStarted define type e) :
    PartStarted define' type e := by
  cases h with
  | pointer => exact .pointer e
  | sequence => exact .sequence e
  | struct h => exact .struct (h.mono hd)

end Refinement

end CallSchema.Expansion
