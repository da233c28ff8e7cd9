import CallSchema.Proofs.Descent

/-!
Where an expansion comes to, and by which way.

`Comes provider policy f path o` says that the description of `f` comes to the expression `o` by way
of the named types `path`, and `Cut` that the guard catches it there.

1. `cut_iff`, `nodup_texts`: a cut is of a named type whose text is on the path, where every text
   stands once.
2. `exists_cut_of_ends_error`: the error of a recursive type comes from a cut.
3. `exists_ends_of_comes`: an error at a place that the expansion comes to is its end.
4. `exists_recursiveType_iff_exists_cut`: so where recursive types are errors, a function fails with
   one exactly if there is a cut.
5. `describedAs_unguarded_of_no_cut`: a function without cuts is described as if there were no
   guard.
-/

namespace CallSchema

/-- A type expression, and the type parameters in whose scope it stands. -/
structure Occurrence where
  scope : List String
  expr : TypeExpr

/-- The expression with its type parameters told apart from types of their names. -/
def Occurrence.meaning (o : Occurrence) : TypeExpr := o.expr.substitute o.scope []

/-- Whether the expression is a named type. -/
def Occurrence.IsNamed (o : Occurrence) : Prop := (Expansion.identity? o.expr).isSome

namespace Expansion

/-- The texts by which the guard knows the types of a path. -/
def texts (path : List Occurrence) : List String := path.map (·.expr.display)

/-- The named types on the way down to what stands in an expression. -/
def extended (path : List Occurrence) (o : Occurrence) : List Occurrence :=
  if (identity? o.expr).isSome then o :: path else path

theorem mem_extended {path : List Occurrence} {o m : Occurrence} :
    m ∈ extended path o ↔ (m = o ∧ o.IsNamed) ∨ m ∈ path := by
  unfold extended Occurrence.IsNamed
  split <;> simp [*]

theorem texts_extended (path : List Occurrence) (o : Occurrence) :
    texts (extended path o) = entered (texts path) o.expr := by
  unfold extended entered
  cases hid : identity? o.expr with
  | none => rfl
  | some identity =>
    obtain ⟨name, args, he⟩ := exists_eq_named hid
    obtain rfl : o.expr.display = identity := by
      rw [he] at hid ⊢
      exact Option.some.inj hid
    rfl

/-! ## Where errors come from -/

section Errors

variable {define : TypeExpr → Expansion Definition}

/-- The tag of a field or parameter cannot be read. -/
def MalformedTag (f : FieldDecl) : Prop :=
  ∃ literal reason, f.tag = some literal ∧ Tag.parse literal = .error reason

/-- Malformed tags are those that give an error, under whatever label. -/
theorem malformedTag_iff {f : FieldDecl} (label : String) :
    MalformedTag f ↔ ∃ e, tagsOf f label = .error e := by
  constructor
  · rintro ⟨literal, reason, ht, hp⟩
    exact ⟨_, tagsOf_error ht hp label⟩
  · rintro ⟨e, he⟩
    cases ht : f.tag with
    | none => exact absurd ((tagsOf_none ht label).symm.trans he) nofun
    | some literal =>
      cases hp : Tag.parse literal with
      | error reason => exact ⟨literal, reason, ht, hp⟩
      | ok tags => exact absurd ((tagsOf_ok ht hp label).symm.trans he) nofun

theorem kind_of_tagsOf_error {f : FieldDecl} {label : String} {e : SchemaError}
    (h : tagsOf f label = .error e) : e.kind = .tagSyntax := by
  obtain ⟨reason, rfl⟩ := tagsOf_eq_error h
  rfl

/-- An error of a list of fields is that of a tag, or of a type that is started. -/
theorem exists_started_of_error {object : Definition} {fs : List FieldDecl} {err : SchemaError}
    (hfs : ∀ f ∈ fs, ∃ label names, fieldNames f = label :: names)
    (h : Ends (insertFields define object fs) (.error err)) :
    (err.kind = .tagSyntax ∧ ∃ f ∈ fs, MalformedTag f) ∨
      ∃ e, Started define fs e ∧ Ends (define e) (.error err) := by
  induction fs generalizing object with
  | nil => exact absurd (ends_pure.mp h) nofun
  | cons f fs ih =>
    obtain ⟨label, names, hn⟩ := hfs f List.mem_cons_self
    rw [insertFields_named hn] at h
    rcases ends_bind_error.mp h with hf | ⟨value, hf, hrest⟩
    · rcases ends_field_error.mp hf with ht | ⟨tags, ht, he⟩
      · exact .inl ⟨kind_of_tagsOf_error ht, f, List.mem_cons_self,
          (malformedTag_iff label).mpr ⟨err, ht⟩⟩
      · exact .inr ⟨f.type, .head ht, he⟩
    · rcases ih (fun g hg => hfs g (List.mem_cons_of_mem f hg)) hrest with
        ⟨hk, g, hg, ht⟩ | ⟨e, hs, he⟩
      · exact .inl ⟨hk, g, List.mem_cons_of_mem f hg, ht⟩
      · exact .inr ⟨e, .tail hf hs, he⟩

/-- An error of a type that is started ends the list of fields. -/
theorem Started.ends_insertFields {fs : List FieldDecl} {e : TypeExpr} {err : SchemaError}
    (hfs : ∀ f ∈ fs, ∃ label names, fieldNames f = label :: names) (h : Started define fs e)
    (he : Ends (define e) (.error err)) (object : Definition) :
    Ends (insertFields define object fs) (.error err) := by
  induction h generalizing object with
  | @head f fs _ tags ht =>
    obtain ⟨label, names, hn⟩ := hfs f List.mem_cons_self
    rw [insertFields_named hn, ends_bind_error, ends_field_error]
    exact .inl (.inr ⟨tags, tagsOf_eq_ok_of_eq_ok label ht, he⟩)
  | @tail f fs _ value _ hf _ ih =>
    obtain ⟨label, names, hn⟩ := hfs f List.mem_cons_self
    rw [insertFields_named hn, ends_bind_error]
    refine .inr ⟨value, ends_field_of_label label hf, ?_⟩
    exact ih (fun g hg => hfs g (List.mem_cons_of_mem f hg)) he _

theorem exists_partStarted_of_error {type : ResolvedType} {err : SchemaError}
    (h : Ends (resolvedDefinition define type) (.error err)) :
    (err.kind = .tagSyntax ∧ ∃ fields, type = .struct fields ∧
      ∃ f ∈ namedFields fields, MalformedTag f) ∨
      ∃ e, PartStarted define type e ∧ Ends (define e) (.error err) := by
  cases type with
  | basic kind => exact absurd (ends_pure.mp h) nofun
  | unsupported what => exact absurd (ends_pure.mp h) nofun
  | pointer pointee => exact .inr ⟨pointee, .pointer pointee, h⟩
  | sequence element => exact .inr ⟨element, .sequence element, ends_map_error.mp h⟩
  | struct fields =>
    rw [resolvedDefinition_struct] at h
    rcases exists_started_of_error (fun f hf => exists_fieldNames hf) h with
      ⟨hk, ht⟩ | ⟨e, hs, he⟩
    · exact .inl ⟨hk, fields, rfl, ht⟩
    · exact .inr ⟨e, .struct hs, he⟩

theorem PartStarted.ends_resolvedDefinition {type : ResolvedType} {e : TypeExpr}
    {err : SchemaError} (h : PartStarted define type e) (he : Ends (define e) (.error err)) :
    Ends (resolvedDefinition define type) (.error err) := by
  cases h with
  | pointer => exact he
  | sequence => exact ends_map_error.mpr he
  | struct h =>
    rw [resolvedDefinition_struct]
    exact h.ends_insertFields (fun f hf => exists_fieldNames hf) he .object

/-- An error of a parameter list is that of a tag, or of a type that is started. -/
theorem exists_started_of_parameter_error {position : Nat} {object : Definition}
    {ps : List FieldDecl} {err : SchemaError}
    (h : Ends (insertParameters define position object ps) (.error err)) :
    (err.kind = .tagSyntax ∧ ∃ p ∈ ps, MalformedTag p) ∨
      ∃ e cause, Started define ps e ∧ Ends (define e) (.error cause) ∧ cause.kind = err.kind := by
  induction ps generalizing position object with
  | nil => exact absurd (ends_pure.mp h) nofun
  | cons p ps ih =>
    obtain ⟨label, names, hn⟩ := exists_label position p
    rw [insertParameters_cons hn] at h
    rcases ends_bind_error.mp h with hp | ⟨d, hp, hrest⟩
    · obtain ⟨cause, hf, rfl⟩ := ends_parameter_error.mp hp
      rcases ends_field_error.mp hf with ht | ⟨tags, ht, he⟩
      · exact .inl ⟨(SchemaError.kind_parameter label cause).trans (kind_of_tagsOf_error ht), p,
          List.mem_cons_self, (malformedTag_iff label).mpr ⟨cause, ht⟩⟩
      · exact .inr ⟨p.type, cause, .head ht, he, rfl⟩
    · obtain ⟨value, hf, -⟩ := ends_map_ok.mp (ends_mapError_ok.mp hp)
      rcases ih hrest with ⟨hk, q, hq, ht⟩ | ⟨e, cause, hs, he⟩
      · exact .inl ⟨hk, q, List.mem_cons_of_mem p hq, ht⟩
      · exact .inr ⟨e, cause, .tail hf hs, he⟩

/-- An error of a type that is started ends the parameter list, under the name of a parameter. -/
theorem Started.ends_insertParameters {ps : List FieldDecl} {e : TypeExpr} {cause : SchemaError}
    (h : Started define ps e) (he : Ends (define e) (.error cause)) (position : Nat)
    (object : Definition) :
    ∃ label, Ends (insertParameters define position object ps)
      (.error (.parameter label cause)) := by
  induction h generalizing position object with
  | @head p ps _ tags ht =>
    obtain ⟨label, names, hn⟩ := exists_label position p
    refine ⟨label, ?_⟩
    rw [insertParameters_cons hn, ends_bind_error, ends_parameter_error]
    refine .inl ⟨cause, ends_field_error.mpr (.inr ⟨tags, ?_, he⟩), rfl⟩
    exact tagsOf_eq_ok_of_eq_ok label ht
  | @tail p ps _ value _ hf _ ih =>
    obtain ⟨label, names, hn⟩ := exists_label position p
    have hp : Ends (parameter define p label) (.ok value.1) :=
      ends_mapError_ok.mpr (ends_map_ok.mpr ⟨value, ends_field_of_label label hf, rfl⟩)
    obtain ⟨label', hrest⟩ := ih he (position + (entries p).length)
      (insertAll object (label :: names) value.1 true)
    refine ⟨label', ?_⟩
    rw [insertParameters_cons hn, ends_bind_error]
    exact .inr ⟨value.1, hp, hrest⟩

end Errors

/-! ## Ways -/

section Ways

variable {p : Package} {provider : Provider} {policy : CyclePolicy} {f : FuncDecl}
  {path : List Occurrence} {o : Occurrence}

/-- The description of the function comes to the expression by way of the named types of the path,
    the innermost first. -/
inductive Comes (provider : Provider) (policy : CyclePolicy) (f : FuncDecl) :
    List Occurrence → Occurrence → Prop
  | parameter (depth : Nat) {e : TypeExpr}
      (started : Started (typeDefinition provider (some policy) depth [] f.typeParams) f.params e) :
      Comes provider policy f [] ⟨f.typeParams, e⟩
  | part (depth : Nat) {path : List Occurrence} {o : Occurrence} {type : ResolvedType}
      {e : TypeExpr} (above : Comes provider policy f path o)
      (passed : guarded (some policy) (texts path) o.expr = none)
      (resolved : provider.resolve o.scope o.expr = .ok type)
      (started : PartStarted (typeDefinition provider (some policy) depth (texts (extended path o))
        (innerScope o.scope o.expr)) type e) :
      Comes provider policy f (extended path o) ⟨innerScope o.scope o.expr, e⟩

/-- What passes on through a package holds wherever the description of a function comes to and on
    the way there, if it holds of the parameters. -/
theorem inherited_of_comes {I : List String → TypeExpr → Prop} (hI : p.Inherited I)
    (hf : ∀ q ∈ f.params, I f.typeParams q.type) (h : Comes p.provider policy f path o) :
    I o.scope o.expr ∧ ∀ m ∈ path, I m.scope m.expr := by
  induction h with
  | parameter _ started =>
    obtain ⟨q, hq, rfl⟩ := started.exists_mem
    exact ⟨hf q hq, nofun⟩
  | @part _ path o type e _ _ resolved started ih =>
    obtain ⟨ho, hpath⟩ := ih
    refine ⟨hI.of_resolve ho resolved started.mem_parts, fun m hm => ?_⟩
    rcases mem_extended.mp hm with ⟨rfl, -⟩ | hm
    · exact ho
    · exact hpath m hm

/-- The guard catches the expression, to which the description of the function comes. -/
structure Cut (provider : Provider) (policy : CyclePolicy) (f : FuncDecl)
    (path : List Occurrence) (o : Occurrence) : Prop where
  comes : Comes provider policy f path o
  caught : (guarded (some policy) (texts path) o.expr).isSome

/-- All types of a path are named. -/
theorem isNamed_of_mem_path (h : Comes provider policy f path o) : ∀ m ∈ path, m.IsNamed := by
  induction h with
  | parameter _ _ => exact nofun
  | @part _ path o _ _ _ _ _ _ ih =>
    intro m hm
    rcases mem_extended.mp hm with ⟨rfl, hn⟩ | hm
    · exact hn
    · exact ih m hm

theorem identity?_of_isNamed (h : o.IsNamed) : identity? o.expr = some o.expr.display := by
  obtain ⟨identity, hid⟩ := Option.isSome_iff_exists.mp h
  obtain ⟨name, args, he⟩ := exists_eq_named hid
  rw [he]
  rfl

/-- The guard catches the named types whose text is on the path. -/
theorem isSome_guarded :
    (guarded (some policy) (texts path) o.expr).isSome ↔
      o.IsNamed ∧ ∃ m ∈ path, m.expr.display = o.expr.display := by
  constructor
  · intro hcaught
    obtain ⟨r, hr⟩ := Option.isSome_iff_exists.mp hcaught
    obtain ⟨_, identity, -, hid, hm, -⟩ := guarded_eq_some hr
    have hn : o.IsNamed := Option.isSome_iff_exists.mpr ⟨identity, hid⟩
    obtain rfl : o.expr.display = identity :=
      Option.some.inj ((identity?_of_isNamed hn).symm.trans hid)
    exact ⟨hn, List.mem_map.mp hm⟩
  · rintro ⟨hn, hm⟩
    have hmem : o.expr.display ∈ texts path := List.mem_map.mpr hm
    rw [guarded_of_mem (identity?_of_isNamed hn) hmem]
    rfl

theorem cut_iff : Cut provider policy f path o ↔
    Comes provider policy f path o ∧ o.IsNamed ∧ ∃ m ∈ path, m.expr.display = o.expr.display :=
  ⟨fun ⟨hc, hcaught⟩ => ⟨hc, isSome_guarded.mp hcaught⟩,
    fun ⟨hc, hcaught⟩ => ⟨hc, isSome_guarded.mpr hcaught⟩⟩

/-- A type that the guard lets pass has a text of its own. -/
theorem nodup_texts_extended (h : (texts path).Nodup)
    (passed : guarded (some policy) (texts path) o.expr = none) :
    (texts (extended path o)).Nodup := by
  rw [texts_extended]
  cases hid : identity? o.expr with
  | none => simpa [entered, hid] using h
  | some identity =>
    have hnew : identity ∉ texts path := notMem_of_guarded_eq_none hid passed
    simpa [entered, hid] using ⟨hnew, h⟩

/-- The types of a path have distinct texts. -/
theorem nodup_texts (h : Comes provider policy f path o) : (texts path).Nodup := by
  induction h with
  | parameter _ _ => exact List.nodup_nil
  | part _ _ passed _ _ ih => exact nodup_texts_extended ih passed

/-- The error of a recursive type comes from a cut. -/
theorem exists_cut_of_ends_error {depth : Nat} {err : SchemaError}
    (hc : Comes p.provider policy f path o)
    (h : Ends (typeDefinition p.provider (some policy) depth (texts path) o.scope o.expr)
      (.error err)) (hk : err.kind = .recursiveType) :
    ∃ path o, Cut p.provider policy f path o := by
  induction depth generalizing path o with
  | zero => exact absurd h not_ends_tooDeep
  | succ depth ih =>
    cases hg : guarded (some policy) (texts path) o.expr with
    | some r => exact ⟨path, o, hc, by rw [hg]; rfl⟩
    | none =>
      rw [typeDefinition_passed hg, ← texts_extended] at h
      rcases ends_bind_error.mp h with hres | ⟨type, hres, htype⟩
      · have hkind := Package.kind_of_resolve_error (ends_finished.mp hres).symm
        exact absurd (hkind.symm.trans hk) (by decide)
      · rcases exists_partStarted_of_error htype with ⟨ht, -⟩ | ⟨e, hs, he⟩
        · exact absurd (ht.symm.trans hk) (by decide)
        · exact ih (.part depth hc hg (ends_finished.mp hres).symm hs) he

/-- An error at an expression that the description of a function comes to is its end. -/
theorem exists_ends_of_comes {depth : Nat} {err : SchemaError} (hc : Comes provider policy f path o)
    (h : Ends (typeDefinition provider (some policy) depth (texts path) o.scope o.expr)
      (.error err)) :
    ∃ label, DescribedAs provider (some policy) f (.error (.parameter label err)) := by
  induction hc generalizing depth with
  | @parameter depth' e started =>
    have hs : Started (typeDefinition provider (some policy) (max depth depth') [] f.typeParams)
        f.params e := started.mono fun _ _ hr => hr.of_le (Nat.le_max_right depth depth')
    have he := h.of_le (Nat.le_max_left depth depth')
    obtain ⟨label, hl⟩ := hs.ends_insertParameters he 0 .object
    refine ⟨label, max depth depth', ?_⟩
    exact ends_bind_error.mpr (.inl (ends_bind_error.mpr (.inl hl)))
  | @part depth' path o type e _ passed resolved started ih =>
    have hs : PartStarted (typeDefinition provider (some policy) (max depth depth')
        (texts (extended path o)) (innerScope o.scope o.expr)) type e :=
      started.mono fun _ _ hr => hr.of_le (Nat.le_max_right depth depth')
    have hinner := hs.ends_resolvedDefinition (h.of_le (Nat.le_max_left depth depth'))
    have hpassed : Ends (typeDefinition provider (some policy) (max depth depth' + 1) (texts path)
        o.scope o.expr) (.error err) := by
      rw [typeDefinition_passed passed, ends_bind_error, ← texts_extended, resolved]
      exact .inr ⟨type, ends_finished.mpr rfl, hinner⟩
    exact ih hpassed

/-- Where recursive types are errors, a function fails with one exactly if there is a cut. -/
theorem exists_recursiveType_iff_exists_cut :
    (∃ e, DescribedAs p.provider (some .error) f (.error e) ∧ e.kind = .recursiveType) ↔
      ∃ path o, Cut p.provider .error f path o := by
  constructor
  · rintro ⟨e, ⟨depth, h⟩, hk⟩
    rcases ends_bind_error.mp h with hps | ⟨_, _, hend⟩
    · rcases ends_bind_error.mp hps with hobject | ⟨_, _, hend⟩
      · rcases exists_started_of_parameter_error hobject with
          ⟨ht, -⟩ | ⟨type, cause, hs, hcause, hkind⟩
        · exact absurd (ht.symm.trans hk) (by decide)
        · exact exists_cut_of_ends_error (.parameter depth hs) hcause (hkind.trans hk)
      · exact absurd (ends_pure.mp hend) nofun
    · exact absurd (ends_pure.mp hend) nofun
  · rintro ⟨path, o, hc, hcaught⟩
    obtain ⟨r, hr⟩ := Option.isSome_iff_exists.mp hcaught
    obtain ⟨policy, identity, hpolicy, -, -, rfl⟩ := guarded_eq_some hr
    obtain rfl := Option.some.inj hpolicy
    have hends : Ends (typeDefinition p.provider (some .error) 1 (texts path) o.scope o.expr)
        (.error (.recursiveType identity)) := by
      rw [typeDefinition_caught hr]
      exact ends_finished.mpr rfl
    obtain ⟨label, hl⟩ := exists_ends_of_comes hc hends
    exact ⟨_, hl, rfl⟩

/-- Where nothing is cut, an end is the one without the guard. -/
theorem refines_unguarded_of_no_cut {E : SchemaError → Prop}
    (hnone : ¬ ∃ path o, Cut provider policy f path o) (depth : Nat)
    (hc : Comes provider policy f path o) :
    Refines E (typeDefinition provider (some policy) depth (texts path) o.scope o.expr)
      (typeDefinition provider none depth (texts path) o.scope o.expr) := by
  induction depth generalizing path o with
  | zero => exact fun r h => absurd h not_ends_tooDeep
  | succ depth ih =>
    cases hg : guarded (some policy) (texts path) o.expr with
    | some r => exact absurd ⟨path, o, hc, by rw [hg]; rfl⟩ hnone
    | none =>
      refine refines_typeDefinition hg rfl rfl fun type htype part hs => ?_
      rw [← texts_extended] at hs ⊢
      exact ih (.part depth hc hg htype hs)

/-- A function without cuts is described as if there were no guard. -/
theorem describedAs_unguarded_of_no_cut (hnone : ¬ ∃ path o, Cut provider policy f path o)
    {r : Except SchemaError FunctionDetails} (h : DescribedAs provider (some policy) f r) :
    DescribedAs provider none f r := by
  obtain ⟨depth, hr⟩ := h
  have hrefines : Refines (fun _ => True) (function provider (some policy) depth f)
      (function provider none depth f) :=
    refines_function (fun _ _ _ => trivial) fun e hs =>
      refines_unguarded_of_no_cut hnone depth (.parameter depth hs)
  exact ⟨depth, hrefines r hr fun _ _ => trivial⟩

end Ways

end Expansion

end CallSchema
