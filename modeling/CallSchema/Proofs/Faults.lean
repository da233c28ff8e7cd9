import CallSchema.Proofs.Chains
import CallSchema.Proofs.Unfolding

/-!
What makes the description of a function fail.

`Unfolds p f o`: from the parameters of `f`, one comes to `o` through pointees, elements and fields
that have a name, and from a declared name to its declaration, as often as one likes. `Faulty p f`:
somewhere on such a way a tag cannot be read, or a name stands for nothing.

In a package without generic types, recursive references cut to null neither hide a fault nor make
one (`fails_iff_faulty`):

1. `faulty_of_ends_error`: every error is that of a fault, since a cut is none.
2. `not_ends_ok_of_faultWithin`: a fault that takes the fewest steps from a type is not cut off from
   it, since a second meeting with a type on the way would leave a shorter way. So no type with a
   fault below it has a schema, which is shown by induction on the number of steps.
3. `Unfolds.exists_reaches`: a chain of names is one step of the expansion, however long it is.
-/

namespace CallSchema.Expansion

variable {p : Package} {policy : CyclePolicy} {f : FuncDecl} {o : Occurrence}
  {scope : List String} {e : TypeExpr}

/-- The expression can be come to from the parameters of the function, one declaration, pointee,
    element or field at a time. -/
inductive Unfolds (p : Package) (f : FuncDecl) : Occurrence → Prop
  | parameter {q : FieldDecl} (hq : q ∈ f.params) : Unfolds p f ⟨f.typeParams, q.type⟩
  | pointee {scope : List String} {e : TypeExpr} (above : Unfolds p f ⟨scope, .pointer e⟩) :
      Unfolds p f ⟨scope, e⟩
  | sliceElement {scope : List String} {e : TypeExpr} (above : Unfolds p f ⟨scope, .slice e⟩) :
      Unfolds p f ⟨scope, e⟩
  | arrayElement {scope : List String} {e : TypeExpr} (above : Unfolds p f ⟨scope, .array e⟩) :
      Unfolds p f ⟨scope, e⟩
  | field {scope : List String} {fields : List FieldDecl} {g : FieldDecl}
      (above : Unfolds p f ⟨scope, .struct fields⟩) (hg : g ∈ fields) (hn : fieldNames g ≠ []) :
      Unfolds p f ⟨scope, g.type⟩
  | body {scope : List String} {name : String} {args : List TypeExpr} {d : TypeDecl}
      (above : Unfolds p f ⟨scope, .named name args⟩) (hs : ¬ (args = [] ∧ name ∈ scope))
      (hd : p.typeDecl? name = some d) : Unfolds p f ⟨[], Package.instantiate d scope args⟩

/-- Unfolding the function, one comes to a tag that cannot be read, or to a name that is no type
    parameter there and that neither the package nor the language declares. -/
inductive Faulty (p : Package) (f : FuncDecl) : Prop
  | parameterTag {q : FieldDecl} (hq : q ∈ f.params) (ht : MalformedTag q) : Faulty p f
  | fieldTag {scope : List String} {fields : List FieldDecl} {g : FieldDecl}
      (h : Unfolds p f ⟨scope, .struct fields⟩) (hg : g ∈ fields) (hn : fieldNames g ≠ [])
      (ht : MalformedTag g) : Faulty p f
  | undeclared {scope : List String} {name : String} {args : List TypeExpr}
      (h : Unfolds p f ⟨scope, .named name args⟩) (hs : ¬ (args = [] ∧ name ∈ scope))
      (hd : p.typeDecl? name = none) (hb : predeclared? name = none) : Faulty p f

/-! ## The ends of chains -/

/-- Only a struct is one underneath without any link. -/
theorem eq_struct_of_link {fields : List FieldDecl}
    (h : p.link scope e = .ends (.ok (.struct fields))) : e = .struct fields := by
  cases e with
  | named name args =>
    rw [Package.link_named] at h
    split at h
    · simp at h
    · split at h
      · simp at h
      · split at h
        · rename_i type hpre
          obtain rfl : type = .struct fields := by simpa using h
          unfold predeclared? at hpre
          split at hpre
          · simp at hpre
          · split at hpre <;> simp at hpre
        · simp at h
  | struct fields' =>
    obtain rfl : fields' = fields := by simpa [Package.link] using h
    rfl
  | _ => simp [Package.link] at h

/-- A chain ends in an error at a name that nothing declares. -/
theorem undeclared_of_link {err : SchemaError} (h : p.link scope e = .ends (.error err)) :
    ∃ name args, e = .named name args ∧ ¬ (args = [] ∧ name ∈ scope) ∧
      p.typeDecl? name = none ∧ predeclared? name = none := by
  cases e with
  | named name args =>
    rw [Package.link_named] at h
    split at h
    · simp at h
    · rename_i hs
      split at h
      · simp at h
      · rename_i hd
        split at h
        · simp at h
        · rename_i hb
          exact ⟨name, args, rfl, hs, hd, hb⟩
  | _ => simp [Package.link] at h

/-- An expression without a declaration to follow unfolds to its parts. -/
theorem Unfolds.part_of_link {part : TypeExpr} {type : ResolvedType} (h : Unfolds p f ⟨scope, e⟩)
    (hl : p.link scope e = .ends (.ok type)) (hpart : part ∈ type.parts) :
    Unfolds p f ⟨innerScope scope e, part⟩ := by
  cases e with
  | named name args =>
    rw [Package.parts_of_link_named hl] at hpart
    exact absurd hpart List.not_mem_nil
  | pointer pointee =>
    cases hl
    obtain rfl := List.mem_singleton.mp hpart
    exact h.pointee
  | slice element =>
    cases hl
    obtain rfl := List.mem_singleton.mp hpart
    exact h.sliceElement
  | array element =>
    cases hl
    obtain rfl := List.mem_singleton.mp hpart
    exact h.arrayElement
  | struct fields =>
    cases hl
    obtain ⟨g, hg, hn, rfl⟩ := ResolvedType.mem_parts_struct.mp hpart
    exact h.field hg hn
  | _ =>
    cases hl
    exact absurd hpart List.not_mem_nil

/-- What is followed from an unfolded expression is unfolded as well, up to the end of the chain,
    unless the chain comes back to a name. -/
theorem Unfolds.exists_end {fresh : List String} {r : Except SchemaError ResolvedType}
    (h : Unfolds p f ⟨scope, e⟩) (hr : p.follow fresh scope e = r) :
    (∃ what, r = .ok (.unsupported what)) ∨
      ∃ scope' e', Unfolds p f ⟨scope', e'⟩ ∧ p.link scope' e' = .ends r ∧
        innerScope scope' e' = innerScope scope e := by
  fun_induction Package.follow p fresh scope e with
  | case1 fresh scope e result hl => exact .inr ⟨scope, e, h, hr ▸ hl, rfl⟩
  | case2 fresh scope e name body hl hm ih =>
    obtain ⟨args, d, rfl, hs, hd, rfl⟩ := Package.link_follows hl
    rcases ih (h.body hs hd) hr with hwhat | ⟨scope', e', h', hl', hscope⟩
    · exact .inl hwhat
    · exact .inr ⟨scope', e', h', hl', hscope.trans (Package.innerScope_nil _)⟩
  | case3 fresh scope e name body hl hm => exact .inl ⟨_, hr.symm⟩

/-! ## Errors come from faults -/

/-- Where recursive references are cut to null, the error of an expression is that of a fault. -/
theorem faulty_of_ends_error {depth : Nat} {expanding : List String} {err : SchemaError}
    (ho : Unfolds p f ⟨scope, e⟩)
    (h : Ends (typeDefinition p.provider (some .null) depth expanding scope e) (.error err)) :
    Faulty p f := by
  induction depth generalizing expanding scope e with
  | zero => exact absurd h not_ends_tooDeep
  | succ depth ih =>
    cases hg : guarded (some .null) expanding e with
    | some r =>
      obtain ⟨policy, identity, hpolicy, -, -, rfl⟩ := guarded_eq_some hg
      obtain rfl := Option.some.inj hpolicy
      rw [typeDefinition_caught hg] at h
      exact absurd (ends_finished.mp h) nofun
    | none =>
      rw [typeDefinition_passed hg] at h
      rcases ends_bind_error.mp h with hres | ⟨type, hres, htype⟩
      · rcases ho.exists_end (ends_finished.mp hres).symm with ⟨what, hw⟩ | ⟨s, e', hu, hl, -⟩
        · simp at hw
        · obtain ⟨name, args, rfl, hs, hd, hb⟩ := undeclared_of_link hl
          exact .undeclared hu hs hd hb
      · rcases exists_partStarted_of_error htype with ⟨-, fields, rfl, g, hg, ht⟩ | ⟨part, hs, he⟩
        · obtain ⟨hmem, hn⟩ := List.mem_filter.mp hg
          rcases ho.exists_end (ends_finished.mp hres).symm with ⟨what, hw⟩ | ⟨s, e', hu, hl, -⟩
          · simp at hw
          · obtain rfl := eq_struct_of_link hl
            exact .fieldTag hu hmem (by simpa using hn) ht
        · refine ih ?_ he
          rcases ho.exists_end (ends_finished.mp hres).symm with ⟨what, hw⟩ | ⟨s, e', hu, hl, hin⟩
          · obtain rfl := Except.ok.inj hw
            exact absurd hs.mem_parts List.not_mem_nil
          · exact hin ▸ hu.part_of_link hl hs.mem_parts

/-- So is the error of a function. -/
theorem faulty_of_describedAs_error {err : SchemaError}
    (h : DescribedAs p.provider (some .null) f (.error err)) : Faulty p f := by
  obtain ⟨depth, h⟩ := h
  rcases ends_bind_error.mp h with hps | ⟨_, _, hend⟩
  · rcases ends_bind_error.mp hps with hobject | ⟨_, _, hend⟩
    · rcases exists_started_of_parameter_error hobject with
        ⟨-, q, hq, ht⟩ | ⟨type, cause, hs, hcause, -⟩
      · exact .parameterTag hq ht
      · obtain ⟨q, hq, rfl⟩ := hs.exists_mem
        exact faulty_of_ends_error (.parameter hq) hcause
    · exact absurd (ends_pure.mp hend) nofun
  · exact absurd (ends_pure.mp hend) nofun

/-! ## Schemas have no faults below them -/

section Success

variable {define : TypeExpr → Expansion Definition}

theorem not_malformedTag {g : FieldDecl} {label : String} {tags : FieldTags}
    (h : tagsOf g label = .ok tags) : ¬ MalformedTag g := by
  intro ht
  obtain ⟨e, he⟩ := (malformedTag_iff label).mp ht
  exact absurd (h.symm.trans he) nofun

/-- In an object that has its schema, so has every field, and its tag can be read. -/
theorem ends_ok_of_insertFields {object d : Definition} {fs : List FieldDecl}
    (hfs : ∀ g ∈ fs, ∃ label names, fieldNames g = label :: names)
    (h : Ends (insertFields define object fs) (.ok d)) :
    ∀ g ∈ fs, ¬ MalformedTag g ∧ ∃ t, Ends (define g.type) (.ok t) := by
  induction fs generalizing object with
  | nil => exact nofun
  | cons g fs ih =>
    obtain ⟨label, names, hn⟩ := hfs g List.mem_cons_self
    rw [insertFields_named hn] at h
    obtain ⟨⟨value, isRequired⟩, hg, hrest⟩ := ends_bind_ok.mp h
    obtain ⟨tags, t, ht, htype, -, -⟩ := ends_field_ok.mp hg
    intro g' hg'
    rcases List.mem_cons.mp hg' with rfl | hg'
    · exact ⟨not_malformedTag ht, t, htype⟩
    · exact ih (fun g hg => hfs g (List.mem_cons_of_mem _ hg)) hrest g' hg'

theorem ends_ok_of_structDefinition {fields : List FieldDecl} {d : Definition}
    (h : Ends (resolvedDefinition define (.struct fields)) (.ok d)) :
    ∀ g ∈ namedFields fields, ¬ MalformedTag g ∧ ∃ t, Ends (define g.type) (.ok t) := by
  rw [resolvedDefinition_struct] at h
  exact ends_ok_of_insertFields (fun g hg => exists_fieldNames hg) h

theorem ends_ok_of_resolvedDefinition {type : ResolvedType} {d : Definition}
    (h : Ends (resolvedDefinition define type) (.ok d)) :
    ∀ part ∈ type.parts, ∃ t, Ends (define part) (.ok t) := by
  intro part hpart
  cases type with
  | basic _ | unsupported _ => exact absurd hpart List.not_mem_nil
  | pointer pointee =>
    obtain rfl := List.mem_singleton.mp hpart
    exact ⟨d, h⟩
  | sequence element =>
    obtain rfl := List.mem_singleton.mp hpart
    obtain ⟨t, ht, -⟩ := ends_map_ok.mp h
    exact ⟨t, ht⟩
  | struct fields =>
    obtain ⟨g, hg, rfl⟩ := List.mem_map.mp hpart
    exact (ends_ok_of_structDefinition h g hg).2

theorem ends_ok_of_insertParameters {ps : List FieldDecl} {position : Nat}
    {object d : Definition} (h : Ends (insertParameters define position object ps) (.ok d)) :
    ∀ q ∈ ps, ¬ MalformedTag q ∧ ∃ t, Ends (define q.type) (.ok t) := by
  induction ps generalizing position object with
  | nil => exact nofun
  | cons q ps ih =>
    obtain ⟨label, names, hn⟩ := exists_label position q
    rw [insertParameters_cons hn] at h
    obtain ⟨value, hq, hrest⟩ := ends_bind_ok.mp h
    obtain ⟨tags, t, ht, htype, -⟩ := ends_parameter_ok.mp hq
    intro q' hq'
    rcases List.mem_cons.mp hq' with rfl | hq'
    · exact ⟨not_malformedTag ht, t, htype⟩
    · exact ih hrest q' hq'

end Success

/-- An expression that the guard lets pass and that has a schema is some type underneath. -/
theorem exists_resolved_of_ends_ok {depth : Nat} {expanding : List String} {d : Definition}
    (hg : guarded (some policy) expanding e = none)
    (h : Ends (typeDefinition p.provider (some policy) depth expanding scope e) (.ok d)) :
    ∃ n, depth = n + 1 ∧ ∃ type, p.resolve scope e = .ok type ∧
      Ends (resolvedDefinition (typeDefinition p.provider (some policy) n (entered expanding e)
        (innerScope scope e)) type) (.ok d) := by
  cases depth with
  | zero => exact absurd h not_ends_tooDeep
  | succ n =>
    rw [typeDefinition_passed hg] at h
    obtain ⟨type, hr, hd⟩ := ends_bind_ok.mp h
    exact ⟨n, rfl, type, (ends_finished.mp hr).symm, hd⟩

/-- At most this many steps of the expansion lead from the expression to a fault. -/
inductive FaultWithin (p : Package) : Nat → List String → TypeExpr → Prop
  | unresolved {n : Nat} {scope : List String} {e : TypeExpr} {err : SchemaError}
      (h : p.resolve scope e = .error err) : FaultWithin p n scope e
  | tag {n : Nat} {scope : List String} {e : TypeExpr} {fields : List FieldDecl} {g : FieldDecl}
      (h : p.resolve scope e = .ok (.struct fields)) (hg : g ∈ namedFields fields)
      (ht : MalformedTag g) : FaultWithin p n scope e
  | step {n : Nat} {scope : List String} {e part : TypeExpr} {type : ResolvedType}
      (h : p.resolve scope e = .ok type) (hpart : part ∈ type.parts)
      (below : FaultWithin p n (innerScope scope e) part) : FaultWithin p (n + 1) scope e

theorem FaultWithin.of_le {n m : Nat} (hle : n ≤ m) (h : FaultWithin p n scope e) :
    FaultWithin p m scope e := by
  induction h generalizing m with
  | unresolved h => exact .unresolved h
  | tag h hg ht => exact .tag h hg ht
  | step h hpart _ ih =>
    obtain ⟨k, rfl⟩ : ∃ k, m = k + 1 := Nat.exists_eq_add_one.mpr (by omega)
    exact .step h hpart (ih (by omega))

/-- A bare name that is no type parameter has the same faults below it in every scope. -/
theorem faultWithin_bare {n : Nat} {name : String} (hs : name ∉ scope)
    (h : FaultWithin p n [] (.named name [])) : FaultWithin p n scope (.named name []) := by
  have hr : p.resolve scope (.named name []) = p.resolve [] (.named name []) :=
    Package.resolve_bare hs
  cases h with
  | unresolved h => exact .unresolved (hr.trans h)
  | tag h hg ht => exact .tag (hr.trans h) hg ht
  | step h hpart below => exact .step (hr.trans h) hpart below

/-- The types on the way down have no fault as near as this below them, and below one of them no
    type parameter is in scope. -/
structure Sounded (p : Package) (n : Nat) (expanding scope : List String) : Prop where
  scope_eq_nil : expanding ≠ [] → scope = []
  not_faultWithin : ∀ name ∈ expanding, ¬ FaultWithin p n [] (.named name [])

theorem Sounded.of_succ {n : Nat} {expanding : List String}
    (h : Sounded p (n + 1) expanding scope) : Sounded p n expanding scope :=
  ⟨h.scope_eq_nil, fun name hm hf => h.not_faultWithin name hm (hf.of_le (Nat.le_succ n))⟩

/-- With a fault no farther below it than below any type on the way down, a type is none of them. -/
theorem Sounded.guarded_eq_none {n : Nat} {expanding : List String}
    (hw : Sounded p n expanding scope)
    (he : e.Plain) (hfault : FaultWithin p n scope e) :
    guarded (some policy) expanding e = none := by
  refine Expansion.guarded_eq_none fun identity hid hm => ?_
  obtain ⟨name, args, rfl⟩ := exists_eq_named hid
  obtain rfl := he.eq_named
  obtain rfl : name = identity := Option.some.inj hid
  obtain rfl := hw.scope_eq_nil (List.ne_nil_of_mem hm)
  exact hw.not_faultWithin name hm hfault

/-- Entering a type with a fault below it at this distance, and at no smaller one. -/
theorem Sounded.enter {n : Nat} {expanding : List String} {part : TypeExpr} {type : ResolvedType}
    (hw : Sounded p (n + 1) expanding scope) (he : e.Plain) (hleast : ¬ FaultWithin p n scope e)
    (hr : p.resolve scope e = .ok type) (hpart : part ∈ type.parts) :
    Sounded p n (entered expanding e) (innerScope scope e) := by
  cases hid : identity? e with
  | none => simpa [entered, innerScope, hid] using hw.of_succ
  | some identity =>
    obtain ⟨name, args, rfl⟩ := exists_eq_named hid
    obtain rfl := he.eq_named
    refine ⟨fun _ => rfl, fun other ho => ?_⟩
    rcases List.mem_cons.mp ho with rfl | ho
    · have hs : other ∉ scope := fun hs => by
        rw [Package.parts_of_resolve_typeParam hs hr] at hpart
        exact absurd hpart List.not_mem_nil
      exact fun hf => hleast (faultWithin_bare hs hf)
    · exact hw.of_succ.not_faultWithin other ho

/-- A type with a fault below it has no schema, under whatever policy. -/
theorem not_ends_ok_of_faultWithin (hp : p.Plain) {n depth : Nat} {expanding : List String}
    {d : Definition} (he : e.Plain) (hw : Sounded p n expanding scope)
    (hfault : FaultWithin p n scope e) :
    ¬ Ends (typeDefinition p.provider (some policy) depth expanding scope e) (.ok d) := by
  intro h
  -- On the distance to the fault, not on the depth: the types on the way down are farther from one.
  induction n generalizing depth expanding scope e d with
  | zero =>
    obtain ⟨depth, rfl, type, hr, hd⟩ := exists_resolved_of_ends_ok (hw.guarded_eq_none he hfault) h
    cases hfault with
    | unresolved herr => exact absurd (hr.symm.trans herr) nofun
    | tag hstruct hg ht =>
      obtain rfl := Except.ok.inj (hr.symm.trans hstruct)
      exact (ends_ok_of_structDefinition hd _ hg).1 ht
  | succ n ih =>
    -- Only at its least distance from the fault may the type be entered.
    by_cases hnear : FaultWithin p n scope e
    · exact ih he hw.of_succ hnear h
    · obtain ⟨depth, rfl, type, hr, hd⟩ :=
        exists_resolved_of_ends_ok (hw.guarded_eq_none he hfault) h
      cases hfault with
      | unresolved herr => exact hnear (.unresolved herr)
      | tag hstruct hg ht => exact hnear (.tag hstruct hg ht)
      | step hstep hpart below =>
        obtain rfl := Except.ok.inj (hr.symm.trans hstep)
        obtain ⟨t, ht⟩ := ends_ok_of_resolvedDefinition hd _ hpart
        exact ih (hp.of_resolve he hr hpart) (hw.enter he hnear hr hpart) below ht

/-! ## From one declaration at a time to whole chains -/

/-- The first expression comes to every end that the second one comes to, and their insides stand in
    the same scope. -/
structure Leads (p : Package) (o o' : Occurrence) : Prop where
  endsAfter : ∀ n r, p.EndsAfter n o'.scope o'.expr r → ∃ m, p.EndsAfter m o.scope o.expr r
  innerScope_eq : innerScope o.scope o.expr = innerScope o'.scope o'.expr

theorem Leads.resolve_eq {o o' : Occurrence} {r : Except SchemaError ResolvedType}
    (hp : p.NoSelfParam) (h : Leads p o o') (hl : p.link o'.scope o'.expr = .ends r) :
    p.resolve o.scope o.expr = r := by
  obtain ⟨m, hm⟩ := h.endsAfter 0 r (.ends hl)
  exact Package.resolve_of_endsAfter hp hm

/-- The step of `Unfolds.exists_reaches` from an expression to a part of it. -/
theorem Leads.exists_reaches_part {o₀ : Occurrence} {part : TypeExpr} {type : ResolvedType}
    (hp : p.NoSelfParam) (h₀ : Reaches p f o₀) (h : Leads p o₀ o)
    (hl : p.link o.scope o.expr = .ends (.ok type)) (hpart : part ∈ type.parts) :
    ∃ o₁, Reaches p f o₁ ∧ Leads p o₁ ⟨innerScope o.scope o.expr, part⟩ := by
  refine ⟨_, .part h₀ (h.resolve_eq hp hl) hpart, ?_⟩
  rw [h.innerScope_eq]
  exact ⟨fun n _ hn => ⟨n, hn⟩, rfl⟩

/-- Whatever the function unfolds to stands on the chain of names from an expression that its
    expansion reaches. -/
theorem Unfolds.exists_reaches (hp : p.NoSelfParam) (h : Unfolds p f o) :
    ∃ o₀, Reaches p f o₀ ∧ Leads p o₀ o := by
  induction h with
  | parameter hq => exact ⟨_, .parameter hq, fun n _ hn => ⟨n, hn⟩, rfl⟩
  | pointee _ ih =>
    obtain ⟨o₀, h₀, hlead⟩ := ih
    exact hlead.exists_reaches_part hp h₀ rfl List.mem_cons_self
  | sliceElement _ ih =>
    obtain ⟨o₀, h₀, hlead⟩ := ih
    exact hlead.exists_reaches_part hp h₀ rfl List.mem_cons_self
  | arrayElement _ ih =>
    obtain ⟨o₀, h₀, hlead⟩ := ih
    exact hlead.exists_reaches_part hp h₀ rfl List.mem_cons_self
  | field _ hg hn ih =>
    obtain ⟨o₀, h₀, hlead⟩ := ih
    exact hlead.exists_reaches_part hp h₀ rfl (ResolvedType.mem_parts_struct.mpr ⟨_, hg, hn, rfl⟩)
  | @body scope name args d _ hs hd ih =>
    obtain ⟨o₀, h₀, hlead⟩ := ih
    have hl : p.link scope (.named name args) =
        .follows name (Package.instantiate d scope args) := by
      rw [Package.link_named, if_neg hs, hd]
    -- The expansion does not stop between two names, so the reached expression stays where it is.
    refine ⟨o₀, h₀, fun n r hn => hlead.endsAfter (n + 1) r (.follows hl hn), ?_⟩
    exact hlead.innerScope_eq.trans (Package.innerScope_nil _).symm

/-- A fault below what the expansion reaches is one below a parameter. -/
theorem exists_parameter_of_faultWithin {n : Nat} (h : Reaches p f o)
    (hfault : FaultWithin p n o.scope o.expr) :
    ∃ q ∈ f.params, ∃ m, FaultWithin p m f.typeParams q.type := by
  induction h generalizing n with
  | @parameter q hq => exact ⟨q, hq, n, hfault⟩
  | part _ resolved hpart ih => exact ih (.step resolved hpart hfault)

/-- A fault is that of the tag of a parameter, or some steps of the expansion lead to it. -/
theorem Faulty.exists_faultWithin (hp : p.NoSelfParam) (h : Faulty p f) :
    (∃ q ∈ f.params, MalformedTag q) ∨
      ∃ q ∈ f.params, ∃ n, FaultWithin p n f.typeParams q.type := by
  cases h with
  | parameterTag hq ht => exact .inl ⟨_, hq, ht⟩
  | fieldTag h hg hn ht =>
    obtain ⟨o₀, h₀, hlead⟩ := h.exists_reaches hp
    have hfault : FaultWithin p 0 o₀.scope o₀.expr :=
      .tag (hlead.resolve_eq hp rfl) (List.mem_filter.mpr ⟨hg, by simpa using hn⟩) ht
    exact .inr (exists_parameter_of_faultWithin h₀ hfault)
  | @undeclared scope name args h hs hd hb =>
    obtain ⟨o₀, h₀, hlead⟩ := h.exists_reaches hp
    have hl : p.link scope (.named name args) = .ends (.error (.unresolvedType name)) := by
      rw [Package.link_named, if_neg hs, hd, hb]
    have hfault : FaultWithin p 0 o₀.scope o₀.expr := .unresolved (hlead.resolve_eq hp hl)
    exact .inr (exists_parameter_of_faultWithin h₀ hfault)

/-- A function with a fault has no description. -/
theorem Faulty.not_describedAs_ok (hp : p.Plain) (hself : p.NoSelfParam)
    (hf : ∀ q ∈ f.params, q.type.Plain) {details : FunctionDetails} (h : Faulty p f) :
    ¬ DescribedAs p.provider (some policy) f (.ok details) := by
  rintro ⟨depth, hd⟩
  obtain ⟨object, ho, -⟩ := ends_function_ok.mp hd
  rcases h.exists_faultWithin hself with ⟨q, hq, ht⟩ | ⟨q, hq, n, hfault⟩
  · exact (ends_ok_of_insertParameters ho q hq).1 ht
  · obtain ⟨t, ht⟩ := (ends_ok_of_insertParameters ho q hq).2
    have hw : Sounded p n [] f.typeParams := ⟨fun hne => absurd rfl hne, nofun⟩
    exact not_ends_ok_of_faultWithin hp (hf q hq) hw hfault ht

/-! ## What never fails -/

/-- What has no schema but is no fault: maps, channels, interfaces, functions, types of other
    packages and other expressions, type parameters, and chains of names without an end. -/
inductive Undescribed (p : Package) : Occurrence → Prop
  | map (scope : List String) (key value : TypeExpr) : Undescribed p ⟨scope, .map key value⟩
  | chan (scope : List String) (element : TypeExpr) : Undescribed p ⟨scope, .chan element⟩
  | interface (scope : List String) : Undescribed p ⟨scope, .interface⟩
  | func (scope : List String) : Undescribed p ⟨scope, .func⟩
  | qualified (scope : List String) (package name : String) :
      Undescribed p ⟨scope, .qualified package name⟩
  | other (scope : List String) (text : String) : Undescribed p ⟨scope, .other text⟩
  | typeParam {scope : List String} {name : String} (hs : name ∈ scope) :
      Undescribed p ⟨scope, .named name []⟩
  | endless {scope : List String} {e : TypeExpr} (h : p.Endless scope e) : Undescribed p ⟨scope, e⟩

theorem Undescribed.resolve (h : Undescribed p o) :
    ∃ what, p.resolve o.scope o.expr = .ok (.unsupported what) := by
  cases h with
  | @typeParam scope name hs =>
    refine ⟨"type parameter " ++ name, ?_⟩
    rw [Package.resolve, Package.follow, Package.link_named, if_pos ⟨rfl, hs⟩]
  | endless h => exact Package.resolve_of_endless h
  | _ => exact ⟨_, by rw [Package.resolve, Package.follow]; rfl⟩

/-- Such a type has a schema wherever it stands. -/
theorem Undescribed.ends (h : Undescribed p o) (depth : Nat) (expanding : List String) :
    ∃ d, Ends (typeDefinition p.provider (some .null) (depth + 1) expanding o.scope o.expr)
      (.ok d) := by
  cases hg : guarded (some .null) expanding o.expr with
  | some r =>
    obtain ⟨policy, identity, hpolicy, -, -, rfl⟩ := guarded_eq_some hg
    obtain rfl := Option.some.inj hpolicy
    rw [typeDefinition_caught hg]
    exact ⟨_, ends_finished.mpr rfl⟩
  | none =>
    obtain ⟨what, hr⟩ := h.resolve
    have hresolved : Ends (finished (p.provider.resolve o.scope o.expr))
        (.ok (.unsupported what)) := ends_finished.mpr hr.symm
    rw [typeDefinition_passed hg]
    exact ⟨.null, ends_bind_ok.mpr ⟨_, hresolved, ends_pure.mpr rfl⟩⟩

/-! ## Functions found by name -/

theorem noSelfParam_of_nonGeneric (hp : p.NonGeneric) : p.NoSelfParam := by
  intro d hd name hname
  rw [hp d hd] at hname
  exact absurd hname List.not_mem_nil

/-- A name that is found is described as the function is. -/
theorem exists_describeFunction?_iff {provider : Provider} {name : String}
    {options : TranslateOptions} {r : Except SchemaError FunctionDetails}
    (hfound : findFunction provider.units name options.duplicates = .ok f) :
    (∃ depth, describeFunction? provider depth name options = some r) ↔
      DescribedAs provider (some options.cycles) f r := by
  simp only [describeFunction?, hfound]
  rfl

/-- Without generic types, and with recursive references cut to null, a function fails exactly if it
    unfolds to a malformed tag or to a name that nothing declares, and has a description if not.
    Types that no schema describes never fail. -/
theorem fails_iff_faulty (hgeneric : p.NonGeneric) (hp : p.Plain) {name : String}
    {duplicates : DuplicatePolicy} (hfound : findFunction p.units name duplicates = .ok f)
    (hf : ∀ q ∈ f.params, q.type.Plain) :
    ((∃ depth e, describeFunction? p.provider depth name ⟨.null, duplicates⟩ = some (.error e)) ↔
      Faulty p f) ∧
    ((∃ depth details,
      describeFunction? p.provider depth name ⟨.null, duplicates⟩ = some (.ok details)) ↔
      ¬ Faulty p f) ∧
    ∀ o, Undescribed p o → ∀ depth expanding, ∃ d,
      Ends (typeDefinition p.provider (some .null) (depth + 1) expanding o.scope o.expr)
        (.ok d) := by
  have hends : ∀ r, (∃ depth,
      describeFunction? p.provider depth name ⟨.null, duplicates⟩ = some r) ↔
        DescribedAs p.provider (some .null) f r := fun _ => exists_describeFunction?_iff hfound
  have hself := noSelfParam_of_nonGeneric hgeneric
  obtain ⟨r, hr⟩ := exists_describedAs_guarded hp .null hf
  refine ⟨⟨?_, fun hfault => ?_⟩, ⟨?_, fun hfault => ?_⟩, fun o ho => ho.ends⟩
  · rintro ⟨depth, e, h⟩
    exact faulty_of_describedAs_error ((hends _).mp ⟨depth, h⟩)
  · cases r with
    | error e =>
      obtain ⟨depth, h⟩ := (hends _).mpr hr
      exact ⟨depth, e, h⟩
    | ok details => exact absurd hr (hfault.not_describedAs_ok hp hself hf)
  · rintro ⟨depth, details, h⟩ hfault
    exact hfault.not_describedAs_ok hp hself hf ((hends _).mp ⟨depth, h⟩)
  · cases r with
    | error e => exact absurd (faulty_of_describedAs_error hr) hfault
    | ok details =>
      obtain ⟨depth, h⟩ := (hends _).mpr hr
      exact ⟨depth, details, h⟩

/-- `func F[T any](v T, t Tree)`. -/
def forestFunction : FuncDecl :=
  { name := "F", typeParams := ["T"]
    params := [{ names := ["v"], type := .named "T" [] },
      { names := ["t"], type := .named "Tree" [] }] }

/-- `func G(w Loop)`. -/
def loopFunction : FuncDecl :=
  { name := "G", params := [{ names := ["w"], type := .named "Loop" [] }] }

/-- `type Tree struct { Next *Forest }`, `type Forest struct { Of []Tree; Kind Missing }`,
    `type Loop Knot`, `type Knot Loop`, and the two functions. -/
def forestPackage : Package :=
  { units := [{ path := "forest.go", decls := [
      .type { name := "Tree", type := .struct [
        { names := ["Next"], type := .pointer (.named "Forest" []) }] },
      .type { name := "Forest", type := .struct [
        { names := ["Of"], type := .slice (.named "Tree" []) },
        { names := ["Kind"], type := .named "Missing" [] }] },
      .type { name := "Loop", type := .named "Knot" [] },
      .type { name := "Knot", type := .named "Loop" [] },
      .func forestFunction, .func loopFunction] }] }

/-- The missing name stands behind the tree, which the forest refers back to, and makes the first
    function fail. The chain that loops is no fault. -/
theorem fails_iff_faulty_forest :
    forestPackage.NonGeneric ∧ forestPackage.Plain ∧
      (∃ depth e, describeFunction? forestPackage.provider depth "F" {} = some (.error e)) ∧
      ¬ Faulty forestPackage loopFunction := by
  have hgeneric : forestPackage.NonGeneric := by decide
  have hp : forestPackage.Plain := by decide +kernel
  have hF : findFunction forestPackage.units "F" .first = .ok forestFunction := by
    with_unfolding_all rfl
  have hG : findFunction forestPackage.units "G" .first = .ok loopFunction := by
    with_unfolding_all rfl
  have hparam : { names := ["t"], type := .named "Tree" [] } ∈ forestFunction.params := by
    simp [forestFunction]
  have htree : Unfolds forestPackage forestFunction ⟨["T"], .named "Tree" []⟩ := .parameter hparam
  have hnext : Unfolds forestPackage forestFunction ⟨[], .pointer (.named "Forest" [])⟩ :=
    (htree.body (by decide) (by with_unfolding_all rfl)).field List.mem_cons_self (by decide)
  have hkind : Unfolds forestPackage forestFunction ⟨[], .named "Missing" []⟩ :=
    (hnext.pointee.body (by decide) (by with_unfolding_all rfl)).field
      (List.mem_cons_of_mem _ List.mem_cons_self) (by decide)
  have hfault : Faulty forestPackage forestFunction :=
    .undeclared hkind (by decide) (by with_unfolding_all rfl) (by decide)
  have hloop : describeFunction? forestPackage.provider 2 "G" {} =
      some (.ok { name := "G", description := "", parameters := .null }) := by
    with_unfolding_all rfl
  refine ⟨hgeneric, hp, ?_, ?_⟩
  · exact (fails_iff_faulty hgeneric hp hF (by decide +kernel)).1.mpr hfault
  · exact (fails_iff_faulty hgeneric hp hG (by decide +kernel)).2.1.mp ⟨2, _, hloop⟩

end CallSchema.Expansion
