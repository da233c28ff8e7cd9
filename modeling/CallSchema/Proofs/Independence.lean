import CallSchema.Proofs.Descent
import CallSchema.Proofs.Parameters
import CallSchema.Proofs.Stack

/-!
The groups of a parameter list, each described by itself.

A group stands at a position of the flattened list, which gives its blank entries their names
(`Group`). By itself it comes to a schema or to an error of its own (`Group.ComesTo`).

1. `ends_insertParameters_error_iff`: a parameter list fails with the error of the first group that
   fails by itself, under the first name of that group.
2. `lookup_of_ends_insertParameters`: if none fails, the schema under a name is that of the last
   group which carries the name.
3. `describedAs_iff_groups`: so much for functions, whose expansion may as well be made on one
   shared stack.
-/

namespace CallSchema

/-- An error that can arise inside a parameter. -/
inductive SchemaError.Inner : SchemaError → Prop
  | tagSyntax (field : String) (reason : Tag.TagError) : Inner (.tagSyntax field reason)
  | unresolvedType (name : String) : Inner (.unresolvedType name)
  | recursiveType (name : String) : Inner (.recursiveType name)

/-- Resolution fails with nothing but names that are declared nowhere. -/
def Provider.FailsAtNames (provider : Provider) : Prop :=
  ∀ scope e error, provider.resolve scope e = .error error → ∃ name, error = .unresolvedType name

theorem Package.failsAtNames (p : Package) : p.provider.FailsAtNames :=
  fun _ _ _ h => unresolvedType_of_follow h

namespace Expansion

/-- A group of parameters, with the number of entries before it. -/
structure Group where
  decl : FieldDecl
  position : Nat

/-- The groups of a parameter list, of which `position` entries stand before it. -/
def groupsFrom (position : Nat) : List FieldDecl → List Group
  | [] => []
  | p :: ps => ⟨p, position⟩ :: groupsFrom (position + (entries p).length) ps

namespace Group

/-- The names of the entries of the group. -/
def names (g : Group) : List String := parameterNames g.position (entries g.decl)

/-- The first of them. -/
def label (g : Group) : String := g.names.headD ""

/-- The schema of the group by itself. -/
def schema (define : TypeExpr → Expansion Definition) (g : Group) : Expansion Definition :=
  Prod.fst <$> field define g.decl g.label

theorem names_eq (g : Group) : ∃ rest, g.names = g.label :: rest := by
  obtain ⟨label, rest, hn⟩ := exists_label g.position g.decl
  refine ⟨rest, ?_⟩
  rw [Group.label, names, hn]
  rfl

/-- The last of the groups that carry the name. -/
def IsLast (name : String) (gs : List Group) (g : Group) : Prop :=
  ∃ before after, gs = before ++ g :: after ∧ name ∈ g.names ∧ ∀ a ∈ after, name ∉ a.names

/-- The first of the groups that fail, with its error. -/
def FailsFirst (comesTo : Group → Except SchemaError Definition → Prop) (gs : List Group)
    (g : Group) (cause : SchemaError) : Prop :=
  ∃ before after, gs = before ++ g :: after ∧ (∀ b ∈ before, ∃ d, comesTo b (.ok d)) ∧
    comesTo g (.error cause)

theorem isLast_cons {name : String} {gs : List Group} {g first : Group} :
    IsLast name (first :: gs) g ↔
      IsLast name gs g ∨ (g = first ∧ name ∈ first.names ∧ ∀ a ∈ gs, name ∉ a.names) := by
  constructor
  · rintro ⟨before, after, hgs, hm, hafter⟩
    cases before with
    | nil =>
      obtain ⟨rfl, rfl⟩ := List.cons.inj hgs
      exact .inr ⟨rfl, hm, hafter⟩
    | cons b before =>
      obtain ⟨rfl, rfl⟩ := List.cons.inj hgs
      exact .inl ⟨before, after, rfl, hm, hafter⟩
  · rintro (⟨before, after, rfl, hm, hafter⟩ | ⟨rfl, hm, hafter⟩)
    · exact ⟨first :: before, after, rfl, hm, hafter⟩
    · exact ⟨[], gs, rfl, hm, hafter⟩

theorem failsFirst_cons {comesTo : Group → Except SchemaError Definition → Prop}
    {gs : List Group} {g first : Group} {cause : SchemaError} :
    FailsFirst comesTo (first :: gs) g cause ↔
      (g = first ∧ comesTo first (.error cause)) ∨
        (∃ d, comesTo first (.ok d)) ∧ FailsFirst comesTo gs g cause := by
  constructor
  · rintro ⟨before, after, hgs, hbefore, hg⟩
    cases before with
    | nil =>
      obtain ⟨rfl, rfl⟩ := List.cons.inj hgs
      exact .inl ⟨rfl, hg⟩
    | cons b before =>
      obtain ⟨rfl, rfl⟩ := List.cons.inj hgs
      obtain ⟨hb, hbefore⟩ := List.forall_mem_cons.mp hbefore
      exact .inr ⟨hb, before, after, rfl, hbefore, hg⟩
  · rintro (⟨rfl, hg⟩ | ⟨hfirst, before, after, rfl, hbefore, hg⟩)
    · exact ⟨[], gs, rfl, nofun, hg⟩
    · exact ⟨first :: before, after, rfl, List.forall_mem_cons.mpr ⟨hfirst, hbefore⟩, hg⟩

end Group

/-! ## Parameter lists -/

section Lists

variable {define : TypeExpr → Expansion Definition} {position : Nat} {object result : Definition}
  {ps : List FieldDecl}

theorem insertParameters_group (p : FieldDecl) :
    insertParameters define position object (p :: ps) =
      mapError (.parameter (Group.label ⟨p, position⟩)) (Group.schema define ⟨p, position⟩) >>=
        fun d => insertParameters define (position + (entries p).length)
          (insertAll object (Group.names ⟨p, position⟩) d true) ps := by
  obtain ⟨rest, hn⟩ := Group.names_eq ⟨p, position⟩
  rw [insertParameters_cons hn, hn]
  rfl

theorem exists_ends_insertParameters_iff :
    (∃ result, Ends (insertParameters define position object ps) (.ok result)) ↔
      ∀ g ∈ groupsFrom position ps, ∃ d, Ends (g.schema define) (.ok d) := by
  induction ps generalizing position object with
  | nil => exact ⟨fun _ => nofun, fun _ => ⟨object, ends_pure.mpr rfl⟩⟩
  | cons p ps ih =>
    rw [groupsFrom, List.forall_mem_cons]
    simp only [insertParameters_group, ends_bind_ok, ends_mapError_ok]
    constructor
    · rintro ⟨result, d, hd, hrest⟩
      exact ⟨⟨d, hd⟩, ih.mp ⟨result, hrest⟩⟩
    · rintro ⟨⟨d, hd⟩, hrest⟩
      obtain ⟨result, hresult⟩ := ih.mpr hrest
      exact ⟨result, d, hd, hresult⟩

theorem ends_insertParameters_error_iff {e : SchemaError} :
    Ends (insertParameters define position object ps) (.error e) ↔
      ∃ g cause, Group.FailsFirst (fun g => Ends (g.schema define)) (groupsFrom position ps) g
        cause ∧ e = .parameter g.label cause := by
  induction ps generalizing position object with
  | nil =>
    constructor
    · intro h
      exact absurd (ends_pure.mp h) nofun
    · rintro ⟨g, cause, ⟨before, after, hnil, -⟩, -⟩
      exact absurd hnil.symm (List.append_ne_nil_of_right_ne_nil before (List.cons_ne_nil g after))
  | cons p ps ih =>
    simp only [insertParameters_group, ends_bind_error, ends_mapError_error, ends_mapError_ok, ih,
      groupsFrom, Group.failsFirst_cons]
    constructor
    · rintro (⟨cause, hc, rfl⟩ | ⟨d, hd, g, cause, hfirst, rfl⟩)
      · exact ⟨_, cause, .inl ⟨rfl, hc⟩, rfl⟩
      · exact ⟨g, cause, .inr ⟨⟨d, hd⟩, hfirst⟩, rfl⟩
    · rintro ⟨g, cause, ⟨rfl, hc⟩ | ⟨⟨d, hd⟩, hfirst⟩, rfl⟩
      · exact .inl ⟨cause, hc, rfl⟩
      · exact .inr ⟨d, hd, g, cause, hfirst, rfl⟩

theorem lookup_insertAll (object d : Definition) (names : List String) (isRequired : Bool)
    (name : String) :
    (insertAll object names d isRequired).properties.lookup name =
      if name ∈ names then some d else object.properties.lookup name := by
  induction names generalizing object with
  | nil => simp [insertAll]
  | cons first names ih =>
    have hstep := ih (object.insertProperty first d isRequired)
    rw [Definition.insertProperty_properties] at hstep
    show (insertAll (object.insertProperty first d isRequired) names d
      isRequired).properties.lookup name = _
    rw [hstep]
    by_cases hfirst : name = first
    · simp [hfirst, lookup_upsert_self]
    · simp [hfirst, lookup_upsert_of_ne d object.properties hfirst]

/-- The schema under a name is that of the last group which carries it. -/
theorem lookup_of_ends_insertParameters
    (h : Ends (insertParameters define position object ps) (.ok result)) (name : String)
    (d : Definition) :
    result.properties.lookup name = some d ↔
      (∃ g, Group.IsLast name (groupsFrom position ps) g ∧ Ends (g.schema define) (.ok d)) ∨
        (∀ g ∈ groupsFrom position ps, name ∉ g.names) ∧
          object.properties.lookup name = some d := by
  induction ps generalizing position object with
  | nil =>
    obtain rfl := Except.ok.inj (ends_pure.mp h)
    have hlast : ∀ g, ¬ Group.IsLast name [] g := by
      rintro g ⟨before, after, hnil, -⟩
      exact absurd hnil.symm (List.append_ne_nil_of_right_ne_nil before (List.cons_ne_nil g after))
    simp [groupsFrom, hlast]
  | cons p ps ih =>
    rw [insertParameters_group] at h
    obtain ⟨value, hvalue, hrest⟩ := ends_bind_ok.mp h
    rw [ends_mapError_ok] at hvalue
    have hunique : ∀ d, Ends (Group.schema define ⟨p, position⟩) (.ok d) ↔ value = d :=
      fun d => ⟨fun hd => Except.ok.inj (hvalue.unique hd), fun he => he ▸ hvalue⟩
    simp only [ih hrest, lookup_insertAll, groupsFrom, Group.isLast_cons, List.forall_mem_cons]
    -- Either a later group carries the name, or this one decides.
    by_cases hlater : ∀ g ∈ groupsFrom (position + (entries p).length) ps, name ∉ g.names
    · have hnone : ∀ g, ¬ Group.IsLast name (groupsFrom (position + (entries p).length) ps) g := by
        rintro g ⟨before, after, hgs, hm, -⟩
        exact hlater g (hgs ▸ List.mem_append_right before List.mem_cons_self) hm
      by_cases hname : name ∈ Group.names ⟨p, position⟩
      · simp [hnone, hname, hunique]
      · simp [hnone, hname]
    · simp [hlater]

end Lists

/-! ## Errors of a group -/

section Errors

variable {define : TypeExpr → Expansion Definition} {err : SchemaError}

theorem inner_of_field {f : FieldDecl} {label : String}
    (hdef : ∀ err, Ends (define f.type) (.error err) → err.Inner)
    (h : Ends (field define f label) (.error err)) : err.Inner := by
  rcases ends_field_error.mp h with ht | ⟨tags, -, htype⟩
  · obtain ⟨reason, rfl⟩ := tagsOf_eq_error ht
    exact .tagSyntax label reason
  · exact hdef err htype

theorem inner_of_insertFields {object : Definition} {fs : List FieldDecl}
    (hdef : ∀ e err, Ends (define e) (.error err) → err.Inner)
    (h : Ends (insertFields define object fs) (.error err)) : err.Inner := by
  induction fs generalizing object with
  | nil => exact absurd (ends_pure.mp h) nofun
  | cons f fs ih =>
    cases hn : fieldNames f with
    | nil =>
      rw [insertFields_blank hn] at h
      exact ih h
    | cons label names =>
      rw [insertFields_named hn] at h
      rcases ends_bind_error.mp h with hf | ⟨value, -, hrest⟩
      · exact inner_of_field (hdef f.type) hf
      · exact ih hrest

theorem inner_of_resolvedDefinition {type : ResolvedType}
    (hdef : ∀ e err, Ends (define e) (.error err) → err.Inner)
    (h : Ends (resolvedDefinition define type) (.error err)) : err.Inner := by
  cases type with
  | basic kind => exact absurd (ends_pure.mp h) nofun
  | unsupported what => exact absurd (ends_pure.mp h) nofun
  | pointer pointee => exact hdef pointee err h
  | sequence element => exact hdef element err (ends_map_error.mp h)
  | struct fields => exact inner_of_insertFields hdef h

theorem inner_of_typeDefinition {provider : Provider} {guard : Option CyclePolicy}
    (hp : provider.FailsAtNames) {depth : Nat} {expanding scope : List String} {e : TypeExpr}
    (h : Ends (typeDefinition provider guard depth expanding scope e) (.error err)) :
    err.Inner := by
  induction depth generalizing expanding scope e err with
  | zero => exact absurd h not_ends_tooDeep
  | succ depth ih =>
    cases hg : guarded guard expanding e with
    | some result =>
      rw [typeDefinition_caught hg] at h
      obtain ⟨policy, identity, -, -, -, rfl⟩ := guarded_eq_some hg
      have hr := ends_finished.mp h
      cases policy with
      | null => exact absurd hr nofun
      | error =>
        obtain rfl := Except.error.inj hr
        exact .recursiveType identity
    | none =>
      rw [typeDefinition_passed hg] at h
      rcases ends_bind_error.mp h with hres | ⟨type, -, htype⟩
      · obtain ⟨name, rfl⟩ := hp scope e err (ends_finished.mp hres).symm
        exact .unresolvedType name
      · exact inner_of_resolvedDefinition (fun _ _ => ih) htype

end Errors

/-! ## Functions -/

section Functions

variable {provider : Provider} {guard : Option CyclePolicy} {f : FuncDecl}
  {r : Except SchemaError Definition}

/-- The groups of a function's parameters. -/
def groups (f : FuncDecl) : List Group := groupsFrom 0 f.params

/-- The group comes to this by itself: nothing has been expanded before it, and only the function's
    type parameters are in scope. -/
def Group.ComesTo (provider : Provider) (guard : Option CyclePolicy) (f : FuncDecl) (g : Group)
    (r : Except SchemaError Definition) : Prop :=
  ∃ depth, Ends (g.schema (typeDefinition provider guard depth [] f.typeParams)) r

theorem ends_schema_of_le {m n : Nat} {g : Group} (hle : m ≤ n)
    (h : Ends (g.schema (typeDefinition provider guard m [] f.typeParams)) r) :
    Ends (g.schema (typeDefinition provider guard n [] f.typeParams)) r := by
  have htype : Refines (fun _ => True) (typeDefinition provider guard m [] f.typeParams g.decl.type)
      (typeDefinition provider guard n [] f.typeParams g.decl.type) :=
    refines_of_le hle [] f.typeParams g.decl.type
  have hfield := refines_field fun tags (_ : tagsOf g.decl g.label = .ok tags) => htype
  exact hfield.map Prod.fst r h fun _ _ => trivial

theorem Group.ComesTo.unique {g : Group} {r' : Except SchemaError Definition}
    (h : g.ComesTo provider guard f r) (h' : g.ComesTo provider guard f r') : r = r' := by
  obtain ⟨m, hm⟩ := h
  obtain ⟨n, hn⟩ := h'
  exact eq_of_stable (fun _ _ _ hle => ends_schema_of_le hle) hm hn

/-- Groups that come to schemas each at a depth of their own do so at one depth. -/
theorem exists_depth_groups {gs : List Group}
    (h : ∀ g ∈ gs, ∃ d, g.ComesTo provider guard f (.ok d)) :
    ∃ depth, ∀ n ≥ depth, ∀ g ∈ gs, ∃ d,
      Ends (g.schema (typeDefinition provider guard n [] f.typeParams)) (.ok d) := by
  induction gs with
  | nil => exact ⟨0, fun _ _ => nofun⟩
  | cons g gs ih =>
    obtain ⟨⟨d, m, hm⟩, hrest⟩ := List.forall_mem_cons.mp h
    obtain ⟨k, hk⟩ := ih hrest
    refine ⟨max m k, fun n hn => List.forall_mem_cons.mpr ⟨⟨d, ?_⟩, ?_⟩⟩
    · exact ends_schema_of_le (by omega) hm
    · exact hk n (by omega)

theorem exists_describedAs_ok_iff :
    (∃ details, DescribedAs provider guard f (.ok details)) ↔
      ∀ g ∈ groups f, ∃ d, g.ComesTo provider guard f (.ok d) := by
  constructor
  · rintro ⟨details, depth, h⟩ g hg
    obtain ⟨object, ho, -⟩ := ends_function_ok.mp h
    obtain ⟨d, hd⟩ := exists_ends_insertParameters_iff.mp ⟨object, ho⟩ g hg
    exact ⟨d, depth, hd⟩
  · intro h
    obtain ⟨depth, hdepth⟩ := exists_depth_groups h
    obtain ⟨object, ho⟩ := exists_ends_insertParameters_iff.mpr (hdepth depth (Nat.le_refl depth))
    exact ⟨_, depth, ends_function_ok.mpr ⟨object, ho, rfl⟩⟩

theorem ends_function_error {depth : Nat} {e : SchemaError} :
    Ends (function provider guard depth f) (.error e) ↔
      Ends (insertParameters (typeDefinition provider guard depth [] f.typeParams) 0 .object
        f.params) (.error e) := by
  simp [function, parameters, ends_map_error]

theorem describedAs_error_iff {e : SchemaError} :
    DescribedAs provider guard f (.error e) ↔
      ∃ g cause, Group.FailsFirst (Group.ComesTo provider guard f) (groups f) g cause ∧
        e = .parameter g.label cause := by
  constructor
  · rintro ⟨depth, h⟩
    obtain ⟨g, cause, ⟨before, after, hgs, hbefore, hg⟩, rfl⟩ :=
      ends_insertParameters_error_iff.mp (ends_function_error.mp h)
    have hbefore' : ∀ b ∈ before, ∃ d, b.ComesTo provider guard f (.ok d) := by
      intro b hb
      obtain ⟨d, hd⟩ := hbefore b hb
      exact ⟨d, depth, hd⟩
    exact ⟨g, cause, ⟨before, after, hgs, hbefore', depth, hg⟩, rfl⟩
  · rintro ⟨g, cause, ⟨before, after, hgs, hbefore, m, hg⟩, rfl⟩
    obtain ⟨k, hk⟩ := exists_depth_groups hbefore
    refine ⟨max m k, ends_function_error.mpr (ends_insertParameters_error_iff.mpr ?_)⟩
    refine ⟨g, cause, ⟨before, after, hgs, hk _ (Nat.le_max_right m k), ?_⟩, rfl⟩
    exact ends_schema_of_le (Nat.le_max_left m k) hg

/-- The schemas stored under the names are those of the last groups that carry them. -/
theorem exists_lookup_of_describedAs {details : FunctionDetails}
    (h : DescribedAs provider guard f (.ok details)) :
    ∃ object : Definition, details = ⟨f.name, f.doc.describe, object.singleProperty?.getD object⟩ ∧
      ∀ name d, object.properties.lookup name = some d ↔
        ∃ g, Group.IsLast name (groups f) g ∧ g.ComesTo provider guard f (.ok d) := by
  obtain ⟨depth, h⟩ := h
  obtain ⟨object, ho, rfl⟩ := ends_function_ok.mp h
  refine ⟨object, rfl, fun name d => ?_⟩
  have hempty : ¬ (Definition.object.properties.lookup name = some d) := nofun
  rw [lookup_of_ends_insertParameters ho, or_iff_left fun hnone => hempty hnone.2]
  refine exists_congr fun g => and_congr_right fun hlast => ?_
  constructor
  · intro hd
    exact ⟨depth, hd⟩
  · intro hd
    obtain ⟨before, after, hgs, -⟩ := hlast
    have hg : g ∈ groups f := by
      rw [groups, hgs]
      exact List.mem_append_right before List.mem_cons_self
    obtain ⟨d', hd'⟩ := exists_ends_insertParameters_iff.mp ⟨object, ho⟩ g hg
    obtain rfl := Except.ok.inj (hd.unique ⟨depth, hd'⟩)
    exact hd'

/-- Parameters are described independently, and all or none of them.

    On one stack that all groups share, every type and the whole function come to the same as
    without it, and the stack is left as it was. A function has a description exactly if each group
    has a schema by itself; that of a name is the schema of the last group with the name. It has an
    error exactly if some group has one by itself, and that of the first such group is reported,
    under the first name of the group. -/
theorem describedAs_iff_groups (provider : Provider) (guard : Option CyclePolicy) (f : FuncDecl) :
    ((∀ depth scope e stack, (Walk.typeDefinition provider guard depth scope e).runOn stack =
        (ExceptT.run (typeDefinition provider guard depth stack scope e)).map (·, stack)) ∧
      ∀ depth, (Walk.function provider guard depth f).runOn [] =
        (ExceptT.run (function provider guard depth f)).map (·, [])) ∧
    ((∃ details, DescribedAs provider guard f (.ok details)) ↔
      ∀ g ∈ groups f, ∃ d, g.ComesTo provider guard f (.ok d)) ∧
    (∀ details, DescribedAs provider guard f (.ok details) →
      ∃ object : Definition, details = ⟨f.name, f.doc.describe, object.singleProperty?.getD object⟩ ∧
        ∀ name d, object.properties.lookup name = some d ↔
          ∃ g, Group.IsLast name (groups f) g ∧ g.ComesTo provider guard f (.ok d)) ∧
    (∀ e, DescribedAs provider guard f (.error e) ↔
      ∃ g cause, Group.FailsFirst (Group.ComesTo provider guard f) (groups f) g cause ∧
        e = .parameter g.label cause) ∧
    (provider.FailsAtNames → ∀ g cause, Group.ComesTo provider guard f g (.error cause) →
      cause.Inner) := by
  refine ⟨⟨fun depth scope e => Walk.keeps_typeDefinition depth scope e,
    fun depth => Walk.runOn_function depth f⟩, exists_describedAs_ok_iff,
    fun details => exists_lookup_of_describedAs, fun e => describedAs_error_iff, ?_⟩
  rintro hp g cause ⟨depth, h⟩
  exact inner_of_field (fun _ => inner_of_typeDefinition hp) (ends_map_error.mp h)

/-- `type Node struct { Next *Node }`. -/
def knotPackage : Package :=
  { units := [{ path := "node.go", decls := [
      .type { name := "Node", type := .struct [
        { names := ["Next"], type := .pointer (.named "Node" []) }] }] }] }

/-- `func F(a, b Node, _ []Missing, c *Node)`. -/
def knotFunction : FuncDecl :=
  { name := "F"
    params := [{ names := ["a", "b"], type := .named "Node" [] },
      { names := ["_"], type := .slice (.named "Missing" []) },
      { names := ["c"], type := .pointer (.named "Node" []) }] }

/-- The second group fails, under the name that its place gives it. -/
theorem describedAs_iff_groups_knot :
    knotPackage.provider.FailsAtNames ∧
      ∃ g cause, Group.FailsFirst (Group.ComesTo knotPackage.provider (some .null) knotFunction)
          (groups knotFunction) g cause ∧
        g.label = "arg2" ∧ cause = .unresolvedType "Missing" ∧ cause.Inner := by
  have hp : knotPackage.provider.FailsAtNames := knotPackage.failsAtNames
  have h : DescribedAs knotPackage.provider (some .null) knotFunction
      (.error (.parameter "arg2" (.unresolvedType "Missing"))) := ⟨3, by with_unfolding_all rfl⟩
  obtain ⟨-, -, -, herror, hinner⟩ :=
    describedAs_iff_groups knotPackage.provider (some .null) knotFunction
  obtain ⟨g, cause, hfirst, he⟩ := (herror _).mp h
  obtain ⟨hlabel, hcause⟩ := SchemaError.parameter.inj he
  obtain ⟨before, after, hgs, hbefore, hg⟩ := hfirst
  exact ⟨hp, g, cause, ⟨before, after, hgs, hbefore, hg⟩, hlabel.symm, hcause.symm,
    hinner hp g cause hg⟩

end Functions

end Expansion

end CallSchema
