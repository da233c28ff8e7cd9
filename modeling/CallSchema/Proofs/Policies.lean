import CallSchema.Proofs.Paths

/-!
The two policies for recursive types, run side by side.

`functionVisits` lists what the description of a function turns to, in order: fields and parameters,
whose tags are read, and type expressions. Where one ends in an error, nothing comes after.

1. `Agrees`: of two runs, either both go the same way to the same end, or the first one stops with
   an error at the cut of a type from which the second one goes on. Each way of putting expansions
   together keeps this.
2. `agrees_typeDefinition`: the policy that makes recursive types an error and the one that cuts
   them agree so, as long as the latter comes to an end.
3. `cut_of_mem_functionVisits`: what is cut among the visits is a `Cut`.
4. `describeFunction?_agrees`: so much for the descriptions of functions found by name.
-/

namespace CallSchema.Expansion

variable {α β : Type}

/-! ## Visits -/

/-- What an expansion turns to. -/
inductive Visit where
  | field (f : FieldDecl)
  /-- A type expression; the texts are those of the types on the way down to it. -/
  | type (expanding : List String) (o : Occurrence)

/-- The visit is to a type with this text, which is being expanded. -/
def Visit.Cuts : Visit → String → Prop
  | .field _, _ => False
  | .type expanding o, identity => identity? o.expr = some identity ∧ identity ∈ expanding

/-- Whether the expansion ends with a value. -/
def succeeds (x : Expansion α) : Bool := ((ExceptT.run x).bind Except.toOption).isSome

/-- The visits for fields or parameters: to each of them, to its type if the tag can be read, and to
    the next one if there has been no error. -/
def fieldVisits (define : TypeExpr → Expansion Definition) (visits : TypeExpr → List Visit) :
    List FieldDecl → List Visit
  | [] => []
  | f :: fs =>
    (.field f :: if (tagsOf f "").toOption.isSome then visits f.type else []) ++
      if succeeds (field define f "") then fieldVisits define visits fs else []

/-- The visits for the insides of a resolved type. -/
def partVisits (define : TypeExpr → Expansion Definition) (visits : TypeExpr → List Visit) :
    ResolvedType → List Visit
  | .basic _ => []
  | .unsupported _ => []
  | .pointer pointee => visits pointee
  | .sequence element => visits element
  | .struct fields => fieldVisits define visits (namedFields fields)

/-- The visits for a type expression. -/
def typeVisits (provider : Provider) (guard : Option CyclePolicy) :
    (depth : Nat) → (expanding scope : List String) → TypeExpr → List Visit
  | 0, _, _, _ => []
  | depth + 1, expanding, scope, e =>
    .type expanding ⟨scope, e⟩ ::
      match guarded guard expanding e, provider.resolve scope e with
      | none, .ok type =>
        partVisits (typeDefinition provider guard depth (entered expanding e) (innerScope scope e))
          (typeVisits provider guard depth (entered expanding e) (innerScope scope e)) type
      | _, _ => []

/-- The visits for the description of a function. -/
def functionVisits (provider : Provider) (guard : Option CyclePolicy) (depth : Nat) (f : FuncDecl) :
    List Visit :=
  fieldVisits (typeDefinition provider guard depth [] f.typeParams)
    (typeVisits provider guard depth [] f.typeParams) f.params

theorem succeeds_iff {x : Expansion α} : succeeds x = true ↔ ∃ a, Ends x (.ok a) := by
  unfold succeeds Ends
  rcases ExceptT.run x with _ | (e | a) <;> simp [Except.toOption]

theorem succeeds_of_ends_error {x : Expansion α} {e : SchemaError} (h : Ends x (.error e)) :
    succeeds x = false := by
  rw [Bool.eq_false_iff]
  intro hs
  obtain ⟨a, ha⟩ := succeeds_iff.mp hs
  exact absurd (h.unique ha) nofun

/-! ## Agreement -/

/-- The visits end at a cut, which is among the other visits after the same visits. -/
def StopsAt (identity : String) (vs ws : List Visit) : Prop :=
  ∃ us v, vs = us ++ [v] ∧ v.Cuts identity ∧ vs <+: ws

theorem StopsAt.append_left {identity : String} {vs ws : List Visit} (us : List Visit)
    (h : StopsAt identity vs ws) : StopsAt identity (us ++ vs) (us ++ ws) := by
  obtain ⟨init, v, rfl, hcut, hpre⟩ := h
  refine ⟨us ++ init, v, (List.append_assoc us init [v]).symm, hcut, ?_⟩
  exact (List.prefix_append_right_inj us).mpr hpre

theorem StopsAt.append_right {identity : String} {vs ws : List Visit} (h : StopsAt identity vs ws)
    (rest : List Visit) : StopsAt identity vs (ws ++ rest) := by
  obtain ⟨init, v, rfl, hcut, hpre⟩ := h
  exact ⟨init, v, rfl, hcut, hpre.trans (List.prefix_append ws rest)⟩

/-- Two runs with their visits go the same way to the same end, or the first one stops at a cut,
    with an error that the text of the type makes there, and the second one ends later on. -/
inductive Agrees (stop : SchemaError → String → Prop) (x y : Expansion α) (vs ws : List Visit) :
    Prop
  | same {r : Except SchemaError α} (hx : Ends x r) (hy : Ends y r) (hv : vs = ws)
  | stops {e : SchemaError} {identity : String} (hx : Ends x (.error e)) (hy : Halts y)
      (he : stop e identity) (hv : StopsAt identity vs ws)

section Agreement

variable {stop : SchemaError → String → Prop} {x y : Expansion α} {vs ws vs' ws' : List Visit}

theorem Agrees.bind {g g' : α → Expansion β} (h : Agrees stop x y vs ws)
    (hhalts : Halts (y >>= g'))
    (hrest : ∀ a, Ends x (.ok a) → Ends y (.ok a) → Agrees stop (g a) (g' a) vs' ws') :
    Agrees stop (x >>= g) (y >>= g') (vs ++ if succeeds x then vs' else [])
      (ws ++ if succeeds y then ws' else []) := by
  cases h with
  | @same r hx hy hv =>
    subst hv
    cases r with
    | error e =>
      rw [succeeds_of_ends_error hx, succeeds_of_ends_error hy]
      exact .same (ends_bind.mpr (.inr ⟨e, hx, rfl⟩)) (ends_bind.mpr (.inr ⟨e, hy, rfl⟩)) rfl
    | ok a =>
      rw [succeeds_iff.mpr ⟨a, hx⟩, succeeds_iff.mpr ⟨a, hy⟩, if_pos rfl, if_pos rfl]
      cases hrest a hx hy with
      | same hg hg' hv =>
        exact .same (ends_bind.mpr (.inl ⟨a, hx, hg⟩)) (ends_bind.mpr (.inl ⟨a, hy, hg'⟩))
          (congrArg (vs ++ ·) hv)
      | stops hg _ he hv =>
        exact .stops (ends_bind.mpr (.inl ⟨a, hx, hg⟩)) hhalts he (hv.append_left vs)
  | @stops e identity hx _ he hv =>
    -- The first run makes none of the visits that are still to come.
    rw [succeeds_of_ends_error hx, if_neg (by simp), List.append_nil]
    exact .stops (ends_bind.mpr (.inr ⟨e, hx, rfl⟩)) hhalts he (hv.append_right _)

theorem Agrees.append_left (us : List Visit) (h : Agrees stop x y vs ws) :
    Agrees stop x y (us ++ vs) (us ++ ws) := by
  cases h with
  | same hx hy hv => exact .same hx hy (congrArg (us ++ ·) hv)
  | stops hx hy he hv => exact .stops hx hy he (hv.append_left us)

/-- A last step without visits of its own. -/
theorem Agrees.map {f : α → β} (h : Agrees stop x y vs ws) :
    Agrees stop (f <$> x) (f <$> y) vs ws := by
  rw [← bind_pure_comp, ← bind_pure_comp]
  cases h with
  | @same r hx hy hv =>
    cases r with
    | error e =>
      exact .same (ends_bind.mpr (.inr ⟨e, hx, rfl⟩)) (ends_bind.mpr (.inr ⟨e, hy, rfl⟩)) hv
    | ok a =>
      have hpure : Ends (pure (f a)) (.ok (f a)) := ends_pure.mpr rfl
      exact .same (ends_bind.mpr (.inl ⟨a, hx, hpure⟩)) (ends_bind.mpr (.inl ⟨a, hy, hpure⟩)) hv
  | @stops e identity hx hy he hv =>
    exact .stops (ends_bind.mpr (.inr ⟨e, hx, rfl⟩)) (hy.bind fun a _ => halts_pure (f a)) he hv

theorem Agrees.mapError {stop' : SchemaError → String → Prop} {f : SchemaError → SchemaError}
    (hstop : ∀ e identity, stop e identity → stop' (f e) identity) (h : Agrees stop x y vs ws) :
    Agrees stop' (Expansion.mapError f x) (Expansion.mapError f y) vs ws := by
  cases h with
  | @same r hx hy hv =>
    cases r with
    | error e =>
      exact .same (ends_mapError_error.mpr ⟨e, hx, rfl⟩) (ends_mapError_error.mpr ⟨e, hy, rfl⟩) hv
    | ok a => exact .same (ends_mapError_ok.mpr hx) (ends_mapError_ok.mpr hy) hv
  | @stops e identity hx hy he hv =>
    exact .stops (ends_mapError_error.mpr ⟨e, hx, rfl⟩) (hy.mapError f) (hstop e identity he) hv

end Agreement

section Functions

variable {define define' : TypeExpr → Expansion Definition} {visits visits' : TypeExpr → List Visit}
  {stop stop' : SchemaError → String → Prop}

theorem readable_iff {f : FieldDecl} (label : String) :
    (tagsOf f "").toOption.isSome = true ↔ ∃ tags, tagsOf f label = .ok tags := by
  constructor
  · intro h
    cases ht : tagsOf f "" with
    | error e => simp [ht, Except.toOption] at h
    | ok tags => exact ⟨tags, tagsOf_eq_ok_of_eq_ok label ht⟩
  · rintro ⟨tags, ht⟩
    rw [tagsOf_eq_ok_of_eq_ok "" ht]
    rfl

theorem succeeds_field (f : FieldDecl) (label : String) :
    succeeds (field define f label) = succeeds (field define f "") := by
  rw [Bool.eq_iff_iff, succeeds_iff, succeeds_iff]
  constructor
  · rintro ⟨value, h⟩
    exact ⟨value, ends_field_of_label "" h⟩
  · rintro ⟨value, h⟩
    exact ⟨value, ends_field_of_label label h⟩

theorem succeeds_parameter (p : FieldDecl) (label : String) :
    succeeds (parameter define p label) = succeeds (field define p "") := by
  rw [← succeeds_field p label, Bool.eq_iff_iff, succeeds_iff, succeeds_iff]
  constructor
  · rintro ⟨d, h⟩
    obtain ⟨value, hf, -⟩ := ends_map_ok.mp (ends_mapError_ok.mp h)
    exact ⟨value, hf⟩
  · rintro ⟨value, hf⟩
    exact ⟨value.1, ends_mapError_ok.mpr (ends_map_ok.mpr ⟨value, hf, rfl⟩)⟩

/-- A field whose tag can be read is its type with what the tag and comments add. -/
theorem field_eq_map {f : FieldDecl} {label : String} {tags : FieldTags}
    (ht : tagsOf f label = .ok tags) :
    field define f label = (fun d => (decorate f tags d, tags.required)) <$> define f.type := by
  rw [field, ht, ← bind_pure_comp]
  rfl

theorem agrees_field {f : FieldDecl} {label : String}
    (h : Halts (define' f.type) →
      Agrees stop (define f.type) (define' f.type) (visits f.type) (visits' f.type))
    (hhalts : Halts (field define' f label)) :
    Agrees stop (field define f label) (field define' f label)
      (.field f :: if (tagsOf f "").toOption.isSome then visits f.type else [])
      (.field f :: if (tagsOf f "").toOption.isSome then visits' f.type else []) := by
  cases ht : tagsOf f label with
  | error e =>
    have hunreadable : (tagsOf f "").toOption.isSome ≠ true := by
      intro hr
      obtain ⟨tags, ht'⟩ := (readable_iff label).mp hr
      exact absurd (ht.symm.trans ht') nofun
    rw [if_neg hunreadable, if_neg hunreadable]
    exact .same (ends_field_error.mpr (.inl ht)) (ends_field_error.mpr (.inl ht)) rfl
  | ok tags =>
    have hreadable := (readable_iff label).mpr ⟨tags, ht⟩
    rw [if_pos hreadable, if_pos hreadable]
    rw [field_eq_map ht] at hhalts ⊢
    rw [field_eq_map ht]
    exact (h hhalts.of_map).map.append_left [.field f]

theorem agrees_insertFields {fs : List FieldDecl} {object : Definition}
    (hfs : ∀ f ∈ fs, ∃ label names, fieldNames f = label :: names)
    (h : ∀ e, Halts (define' e) → Agrees stop (define e) (define' e) (visits e) (visits' e))
    (hhalts : Halts (insertFields define' object fs)) :
    Agrees stop (insertFields define object fs) (insertFields define' object fs)
      (fieldVisits define visits fs) (fieldVisits define' visits' fs) := by
  induction fs generalizing object with
  | nil => exact .same (ends_pure.mpr rfl) (ends_pure.mpr rfl) rfl
  | cons f fs ih =>
    obtain ⟨label, names, hn⟩ := hfs f List.mem_cons_self
    rw [insertFields_named hn] at hhalts ⊢
    rw [insertFields_named hn, fieldVisits, fieldVisits, ← succeeds_field f label,
      ← succeeds_field f label]
    refine (agrees_field (h f.type) hhalts.of_bind).bind hhalts fun value _ hvalue => ?_
    exact ih (fun g hg => hfs g (List.mem_cons_of_mem f hg)) (hhalts.of_bind_ok hvalue)

theorem agrees_insertParameters {ps : List FieldDecl} {position : Nat} {object : Definition}
    (hstop : ∀ label e identity, stop e identity → stop' (.parameter label e) identity)
    (h : ∀ e, Halts (define' e) → Agrees stop (define e) (define' e) (visits e) (visits' e))
    (hhalts : Halts (insertParameters define' position object ps)) :
    Agrees stop' (insertParameters define position object ps)
      (insertParameters define' position object ps)
      (fieldVisits define visits ps) (fieldVisits define' visits' ps) := by
  induction ps generalizing position object with
  | nil => exact .same (ends_pure.mpr rfl) (ends_pure.mpr rfl) rfl
  | cons p ps ih =>
    obtain ⟨label, names, hn⟩ := exists_label position p
    rw [insertParameters_cons hn] at hhalts ⊢
    rw [insertParameters_cons hn, fieldVisits, fieldVisits, ← succeeds_parameter p label,
      ← succeeds_parameter p label]
    have hp : Halts (field define' p label) := hhalts.of_bind.of_mapError.of_map
    refine ((agrees_field (h p.type) hp).map.mapError (hstop label)).bind hhalts fun d _ hd => ?_
    exact ih (hhalts.of_bind_ok hd)

theorem agrees_resolvedDefinition {type : ResolvedType}
    (h : ∀ e, Halts (define' e) → Agrees stop (define e) (define' e) (visits e) (visits' e))
    (hhalts : Halts (resolvedDefinition define' type)) :
    Agrees stop (resolvedDefinition define type) (resolvedDefinition define' type)
      (partVisits define visits type) (partVisits define' visits' type) := by
  cases type with
  | basic kind => exact .same (ends_pure.mpr rfl) (ends_pure.mpr rfl) rfl
  | unsupported what => exact .same (ends_pure.mpr rfl) (ends_pure.mpr rfl) rfl
  | pointer pointee => exact h pointee hhalts
  | sequence element => exact (h element hhalts.of_map).map
  | struct fields =>
    rw [resolvedDefinition_struct] at hhalts
    rw [resolvedDefinition_struct, resolvedDefinition_struct]
    exact agrees_insertFields (fun f hf => exists_fieldNames hf) h hhalts

end Functions

/-! ## The two policies -/

section TwoPolicies

variable {provider : Provider} {f : FuncDecl}

/-- The error at a cut. -/
def IsRecursion (e : SchemaError) (identity : String) : Prop := e = .recursiveType identity

/-- The same below a parameter. -/
def IsParameterRecursion (e : SchemaError) (identity : String) : Prop :=
  ∃ label, e = .parameter label (.recursiveType identity)

/-- The guard catches the same under both policies. -/
theorem guarded_error_iff {expanding : List String} {e : TypeExpr} :
    guarded (some .error) expanding e = none ↔ guarded (some .null) expanding e = none := by
  constructor <;>
  · intro h
    exact guarded_eq_none fun identity hid => notMem_of_guarded_eq_none hid h

theorem agrees_typeDefinition {depth : Nat} {expanding scope : List String} {e : TypeExpr}
    (hhalts : Halts (typeDefinition provider (some .null) depth expanding scope e)) :
    Agrees IsRecursion (typeDefinition provider (some .error) depth expanding scope e)
      (typeDefinition provider (some .null) depth expanding scope e)
      (typeVisits provider (some .error) depth expanding scope e)
      (typeVisits provider (some .null) depth expanding scope e) := by
  induction depth generalizing expanding scope e with
  | zero =>
    obtain ⟨r, hr⟩ := hhalts
    exact absurd hr not_ends_tooDeep
  | succ depth ih =>
    rw [typeVisits, typeVisits]
    cases hg : guarded (some .null) expanding e with
    | some r =>
      -- Here the runs part: one stops with an error, and the other one has a leaf.
      obtain ⟨_, identity, -, hid, hm, -⟩ := guarded_eq_some hg
      have herror : guarded (some .error) expanding e = some (.error (.recursiveType identity)) :=
        guarded_of_mem hid hm
      rw [typeDefinition_caught hg, typeDefinition_caught herror, herror]
      exact .stops (ends_finished.mpr rfl) (halts_finished r) rfl
        ⟨[], _, rfl, ⟨hid, hm⟩, List.prefix_refl _⟩
    | none =>
      have herror : guarded (some .error) expanding e = none := guarded_error_iff.mpr hg
      rw [typeDefinition_passed hg] at hhalts ⊢
      rw [typeDefinition_passed herror, herror]
      cases hr : provider.resolve scope e with
      | error err =>
        have hends : ∀ {g : ResolvedType → Expansion Definition},
            Ends (finished (.error err) >>= g) (.error err) :=
          ends_bind.mpr (.inr ⟨err, ends_finished.mpr rfl, rfl⟩)
        exact .same hends hends rfl
      | ok type =>
        rw [hr] at hhalts
        have hinner := hhalts.of_bind_ok (ends_finished.mpr rfl)
        exact (agrees_resolvedDefinition (fun _ => ih) hinner).append_left [_]

theorem agrees_function {depth : Nat}
    (hhalts : Halts (function provider (some .null) depth f)) :
    Agrees IsParameterRecursion (function provider (some .error) depth f)
      (function provider (some .null) depth f) (functionVisits provider (some .error) depth f)
      (functionVisits provider (some .null) depth f) := by
  have hobject := hhalts.of_bind.of_bind
  have hstop : ∀ label e identity, IsRecursion e identity →
      IsParameterRecursion (.parameter label e) identity :=
    fun label _ _ he => ⟨label, congrArg _ he⟩
  have hparams := agrees_insertParameters hstop (fun _ => agrees_typeDefinition) hobject
  exact (hparams.map (f := fun object => object.singleProperty?.getD object)).map

end TwoPolicies

/-! ## Visits and ways -/

section Ways

variable {provider : Provider} {policy : CyclePolicy} {f : FuncDecl} {path : List Occurrence}
  {o : Occurrence} {define : TypeExpr → Expansion Definition} {visits : TypeExpr → List Visit}

theorem exists_started_of_mem_fieldVisits {fs : List FieldDecl} {expanding : List String}
    (h : .type expanding o ∈ fieldVisits define visits fs) :
    ∃ e, Started define fs e ∧ .type expanding o ∈ visits e := by
  induction fs with
  | nil => exact absurd h List.not_mem_nil
  | cons f fs ih =>
    rcases List.mem_append.mp h with h | h
    · have hm : .type expanding o ∈
          if (tagsOf f "").toOption.isSome then visits f.type else [] := by simpa using h
      split at hm
      · rename_i hreadable
        obtain ⟨tags, ht⟩ := (readable_iff "").mp hreadable
        exact ⟨f.type, .head ht, hm⟩
      · exact absurd hm List.not_mem_nil
    · split at h
      · rename_i hs
        obtain ⟨value, hf⟩ := succeeds_iff.mp hs
        obtain ⟨e, hstarted, hm⟩ := ih h
        exact ⟨e, .tail hf hstarted, hm⟩
      · exact absurd h List.not_mem_nil

theorem exists_partStarted_of_mem_partVisits {type : ResolvedType} {expanding : List String}
    (h : .type expanding o ∈ partVisits define visits type) :
    ∃ e, PartStarted define type e ∧ .type expanding o ∈ visits e := by
  cases type with
  | basic kind => exact absurd h List.not_mem_nil
  | unsupported what => exact absurd h List.not_mem_nil
  | pointer pointee => exact ⟨pointee, .pointer pointee, h⟩
  | sequence element => exact ⟨element, .sequence element, h⟩
  | struct fields =>
    obtain ⟨e, hs, hm⟩ := exists_started_of_mem_fieldVisits h
    exact ⟨e, .struct hs, hm⟩

/-- Below an expression that the description comes to, it comes to all that is visited. -/
theorem exists_comes_of_mem_typeVisits {depth : Nat} {expanding : List String} {m : Occurrence}
    (hc : Comes provider policy f path o)
    (h : .type expanding m ∈
      typeVisits provider (some policy) depth (texts path) o.scope o.expr) :
    ∃ path', Comes provider policy f path' m ∧ expanding = texts path' := by
  induction depth generalizing path o with
  | zero => exact absurd h List.not_mem_nil
  | succ depth ih =>
    rw [typeVisits] at h
    rcases List.mem_cons.mp h with hm | h
    · obtain ⟨rfl, rfl⟩ := Visit.type.inj hm
      exact ⟨path, hc, rfl⟩
    · split at h
      · rename_i type hg hr
        obtain ⟨e, hs, hm⟩ := exists_partStarted_of_mem_partVisits h
        rw [← texts_extended] at hs hm
        exact ih (.part depth hc hg hr hs) hm
      · exact absurd h List.not_mem_nil

/-- A visit that is cut is a cut of the description. -/
theorem cut_of_mem_functionVisits {depth : Nat} {v : Visit} {identity : String}
    (h : v ∈ functionVisits provider (some policy) depth f) (hv : v.Cuts identity) :
    ∃ path o, Cut provider policy f path o := by
  cases v with
  | field g => exact hv.elim
  | type expanding o =>
    obtain ⟨e, hs, hm⟩ := exists_started_of_mem_fieldVisits h
    obtain ⟨path, hc, rfl⟩ := exists_comes_of_mem_typeVisits (.parameter depth hs) hm
    obtain ⟨hid, hmem⟩ := hv
    refine ⟨path, o, hc, ?_⟩
    rw [guarded_of_mem hid hmem]
    rfl

end Ways

/-! ## Functions found by name -/

section Found

variable {provider : Provider} {depth : Nat} {name : String} {duplicates : DuplicatePolicy}

/-- The function of the name stops with an error of a recursive type in one of its parameters: at a
    cut, up to which nothing else is visited than where recursive types are cut. -/
def StopsAtCut (provider : Provider) (depth : Nat) (name : String) (duplicates : DuplicatePolicy)
    (e : SchemaError) : Prop :=
  ∃ f label identity, findFunction provider.units name duplicates = .ok f ∧
    e = .parameter label (.recursiveType identity) ∧
    StopsAt identity (functionVisits provider (some .error) depth f)
      (functionVisits provider (some .null) depth f) ∧
    ∃ path o, Cut provider .null f path o

theorem exists_cut_of_stopsAt {f : FuncDecl} {identity : String} {vs : List Visit}
    (h : StopsAt identity vs (functionVisits provider (some .null) depth f)) :
    ∃ path o, Cut provider .null f path o := by
  obtain ⟨us, v, rfl, hcut, hpre⟩ := h
  have hv : v ∈ functionVisits provider (some .null) depth f := hpre.subset (by simp)
  exact cut_of_mem_functionVisits hv hcut

/-- Where recursive types are cut, a function has the description that it has where they are errors,
    if it has one there. Otherwise that description fails with the same error, or before it with the
    error of a recursive type, in one parameter, where the other one cuts the type. -/
theorem describeFunction?_agrees {r : Except SchemaError FunctionDetails}
    (h : describeFunction? provider depth name ⟨.null, duplicates⟩ = some r) :
    ∃ r', describeFunction? provider depth name ⟨.error, duplicates⟩ = some r' ∧
      (∀ details, r' = .ok details → r = .ok details) ∧
      (∀ details e, r = .ok details → r' = .error e →
        StopsAtCut provider depth name duplicates e) ∧
      ∀ e, r = .error e → r' = .error e ∨
        ∃ e', r' = .error e' ∧ StopsAtCut provider depth name duplicates e' := by
  cases hfound : findFunction provider.units name duplicates with
  | error err =>
    simp only [describeFunction?, hfound] at h ⊢
    obtain rfl := Option.some.inj h
    exact ⟨.error err, rfl, nofun, nofun, fun e he => .inl he⟩
  | ok f =>
    simp only [describeFunction?, hfound] at h ⊢
    have hnull : Ends (function provider (some .null) depth f) r := h
    cases agrees_function hnull.halts with
    | @same r' herror hsame _ =>
      obtain rfl := hsame.unique hnull
      refine ⟨r', herror, fun _ hd => hd, fun details e hd he => ?_, fun e he => .inl he⟩
      exact absurd (hd.symm.trans he) nofun
    | @stops e identity herror _ he hv =>
      obtain ⟨label, he⟩ := he
      have hstops : StopsAtCut provider depth name duplicates e :=
        ⟨f, label, identity, hfound, he, hv, exists_cut_of_stopsAt hv⟩
      refine ⟨.error e, herror, nofun, fun _ e' _ he' => ?_, fun _ _ => .inr ⟨e, rfl, hstops⟩⟩
      exact Except.error.inj he' ▸ hstops

/-- `type Queue struct { Front *Queue; Size Count }` and `func F(q Queue)`. -/
def queuePackage : Package :=
  { units := [{ path := "queue.go", decls := [
      .type { name := "Queue", type := .struct [
        { names := ["Front"], type := .pointer (.named "Queue" []) },
        { names := ["Size"], type := .named "Count" [] }] },
      .func { name := "F", params := [{ names := ["q"], type := .named "Queue" [] }] }] }] }

/-- The front of the queue is recursive, and comes before the name that is missing. -/
theorem describeFunction?_agrees_queue :
    describeFunction? queuePackage.provider 3 "F" ⟨.null, .first⟩ =
        some (.error (.parameter "q" (.unresolvedType "Count"))) ∧
      ∃ e, describeFunction? queuePackage.provider 3 "F" ⟨.error, .first⟩ = some (.error e) ∧
        StopsAtCut queuePackage.provider 3 "F" .first e := by
  have hnull : describeFunction? queuePackage.provider 3 "F" ⟨.null, .first⟩ =
      some (.error (.parameter "q" (.unresolvedType "Count"))) := by with_unfolding_all rfl
  have herror : describeFunction? queuePackage.provider 3 "F" ⟨.error, .first⟩ =
      some (.error (.parameter "q" (.recursiveType "Queue"))) := by with_unfolding_all rfl
  obtain ⟨r', hr', -, -, hfails⟩ := describeFunction?_agrees hnull
  obtain rfl := Option.some.inj (herror.symm.trans hr')
  rcases hfails _ rfl with hsame | ⟨e, he, hstops⟩
  · exact absurd hsame (by simp)
  · exact ⟨hnull, e, he ▸ herror, hstops⟩

end Found

end CallSchema.Expansion
