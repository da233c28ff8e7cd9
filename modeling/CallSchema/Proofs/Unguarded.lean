import CallSchema.Proofs.Paths

/-!
The guard against recursive types, compared with expanding without one.

A package is plain if no type expression in it has type arguments. In a plain package, the guard
catches a reference exactly if the expansion would not end without it:

1. `ends_guarded_of_ends_unguarded`: the types on the way down are those whose expansion does not
   end at the depth that is left, so an expansion that ends never meets one of them again, and the
   guard does not show.
2. `exists_describedAs_guarded`: under the guard every function comes to an end.
3. `describedAs_unguarded`: an end other than a recursive type is an end without the guard as well,
   since there has been no cut on the way to it.
4. `describedAs_guarded_iff`: so the guard gives the ends that there are without it, and where there
   is none, its error is that of a recursive type.
-/

namespace CallSchema

/-- The type arguments of an expression. -/
def TypeExpr.arguments : TypeExpr → List TypeExpr
  | .named _ args => args
  | _ => []

/-- No type argument stands in the expression. -/
def TypeExpr.Plain (e : TypeExpr) : Prop := e.All (·.arguments = [])

instance (e : TypeExpr) : Decidable e.Plain :=
  have : DecidablePred fun e : TypeExpr => e.arguments = [] := fun e =>
    decidable_of_iff (e.arguments.isEmpty = true) List.isEmpty_iff
  inferInstanceAs (Decidable (e.All _))

/-- No type argument stands in the types that the package declares. What their type parameters are,
    if they have any, then never matters. -/
def Package.Plain (p : Package) : Prop := ∀ d ∈ p.types, d.type.Plain

instance (p : Package) : Decidable p.Plain :=
  inferInstanceAs (Decidable (∀ d ∈ p.types, d.type.Plain))

namespace TypeExpr

theorem stable_arguments_eq_nil : Stable (·.arguments = []) where
  other_of_named := fun _ => rfl
  substitute := by
    intro params args e hne h
    cases e with
    | named name own => exact absurd (h ▸ rfl) (hne name)
    | _ => rfl

theorem Plain.eq_named {name : String} {args : List TypeExpr} (h : Plain (.named name args)) :
    args = [] := (all_iff.mp h).1

end TypeExpr

namespace Package

variable {p : Package}

theorem Plain.of_resolve (hp : p.Plain) {scope : List String} {e part : TypeExpr}
    {type : ResolvedType} (he : e.Plain) (h : p.resolve scope e = .ok type)
    (hpart : part ∈ type.parts) : part.Plain :=
  all_of_resolve TypeExpr.stable_arguments_eq_nil hp he h part hpart

/-- A bare name that is a type parameter has no parts. -/
theorem parts_of_resolve_typeParam {scope : List String} {name : String} {type : ResolvedType}
    (hs : name ∈ scope) (h : p.resolve scope (.named name []) = .ok type) : type.parts = [] := by
  have hlink : p.link scope (.named name []) =
      .ends (.ok (.unsupported ("type parameter " ++ name))) := by
    rw [link_named, if_pos ⟨rfl, hs⟩]
  rw [resolve, follow, hlink] at h
  obtain rfl := Except.ok.inj h
  rfl

/-- A bare name that is no type parameter means the same in every scope. -/
theorem resolve_bare {scope : List String} {name : String} (hs : name ∉ scope) :
    p.resolve scope (.named name []) = p.resolve [] (.named name []) := by
  have hlink : p.link scope (.named name []) = p.link [] (.named name []) := by
    rw [link_named, link_named, if_neg (by simpa using hs), if_neg (by simp)]
    rfl
  rw [resolve, resolve, follow, hlink, follow]

end Package

namespace Expansion

variable {p : Package} {policy : CyclePolicy}

/-! ## Without a guard -/

/-- Without a guard, it does not matter which types are on the way down. -/
theorem typeDefinition_unguarded (provider : Provider) (depth : Nat)
    (expanding expanding' scope : List String) (e : TypeExpr) :
    typeDefinition provider none depth expanding scope e =
      typeDefinition provider none depth expanding' scope e := by
  induction depth generalizing expanding expanding' scope e with
  | zero => rfl
  | succ depth ih =>
    have hinner : typeDefinition provider none depth (entered expanding e) (innerScope scope e) =
        typeDefinition provider none depth (entered expanding' e) (innerScope scope e) :=
      funext fun part => ih _ _ _ part
    rw [typeDefinition_passed rfl, typeDefinition_passed rfl, hinner]

/-- The expansion without a guard. -/
def unguarded (p : Package) (depth : Nat) (scope : List String) (e : TypeExpr) :
    Expansion Definition :=
  typeDefinition p.provider none depth [] scope e

theorem unguarded_bare {scope : List String} {name : String} (hs : name ∉ scope) (depth : Nat) :
    unguarded p depth scope (.named name []) = unguarded p depth [] (.named name []) := by
  cases depth with
  | zero => rfl
  | succ depth =>
    have hr : p.provider.resolve scope (.named name []) = p.provider.resolve [] (.named name []) :=
      Package.resolve_bare hs
    rw [unguarded, unguarded, typeDefinition_passed rfl, typeDefinition_passed rfl, hr]
    rfl

/-- The first depth at which an expansion ends. -/
theorem exists_first_depth {depth : Nat} {scope : List String} {e : TypeExpr}
    {r : Except SchemaError Definition} (h : Ends (unguarded p depth scope e) r) :
    ∃ m < depth, ¬ Halts (unguarded p m scope e) ∧ Ends (unguarded p (m + 1) scope e) r := by
  induction depth with
  | zero => exact absurd h not_ends_tooDeep
  | succ depth ih =>
    by_cases hd : Halts (unguarded p depth scope e)
    · obtain ⟨r', hr'⟩ := hd
      obtain rfl : r' = r := (hr'.of_le (Nat.le_succ depth)).unique h
      obtain ⟨m, hm, hfirst⟩ := ih hr'
      exact ⟨m, Nat.lt_succ_of_lt hm, hfirst⟩
    · exact ⟨depth, Nat.lt_succ_self depth, hd, h⟩

/-- The types on the way down: none of them can be expanded at the depth that is left, and below one
    of them no type parameter is in scope. -/
structure Pending (p : Package) (depth : Nat) (expanding scope : List String) : Prop where
  scope_eq_nil : expanding ≠ [] → scope = []
  not_halts : ∀ name ∈ expanding, ¬ Halts (unguarded p depth [] (.named name []))

theorem Pending.of_le {m n : Nat} {expanding scope : List String} (hle : m ≤ n)
    (h : Pending p n expanding scope) : Pending p m expanding scope :=
  ⟨h.scope_eq_nil, fun name hm hh => h.not_halts name hm (hh.of_le hle)⟩

/-- The guard does not show in an expression that it lets pass, if it does not in the parts. -/
theorem ends_guarded_of_parts {depth : Nat} {expanding scope : List String} {e : TypeExpr}
    {r : Except SchemaError Definition} (hg : guarded (some policy) expanding e = none)
    (h : Ends (unguarded p (depth + 1) scope e) r)
    (hparts : ∀ type, p.resolve scope e = .ok type → ∀ part ∈ type.parts, ∀ r',
      Ends (unguarded p depth (innerScope scope e) part) r' →
        Ends (typeDefinition p.provider (some policy) depth (entered expanding e)
          (innerScope scope e) part) r') :
    Ends (typeDefinition p.provider (some policy) (depth + 1) expanding scope e) r := by
  refine refines_typeDefinition (E := fun _ => True) rfl hg rfl ?_ r h fun _ _ => trivial
  intro type htype part hs r' hr' _
  refine hparts type htype part hs.mem_parts r' ?_
  rwa [unguarded, typeDefinition_unguarded p.provider depth [] (entered [] e)]

/-- An expansion that ends without the guard has the same end with it. -/
theorem ends_guarded_of_ends_unguarded (hp : p.Plain) {depth : Nat}
    {expanding scope : List String} {e : TypeExpr} {r : Except SchemaError Definition}
    (he : e.Plain) (hw : Pending p depth expanding scope) (h : Ends (unguarded p depth scope e) r) :
    Ends (typeDefinition p.provider (some policy) depth expanding scope e) r := by
  induction depth using Nat.strongRecOn generalizing expanding scope e r with
  | ind depth ih =>
    obtain ⟨m, hm, hfirst, hends⟩ := exists_first_depth h
    cases hid : identity? e with
    | none =>
      obtain ⟨n, rfl⟩ : ∃ n, depth = n + 1 := Nat.exists_eq_add_one.mpr (Nat.zero_lt_of_lt hm)
      have hg : guarded (some policy) expanding e = none :=
        guarded_eq_none fun identity hi => absurd (hid.symm.trans hi) nofun
      refine ends_guarded_of_parts hg h fun type htype part hpart r' hr' => ?_
      have hentered : entered expanding e = expanding := by simp [entered, hid]
      have hscope : innerScope scope e = scope := by simp [innerScope, hid]
      rw [hentered]
      refine ih n (Nat.lt_succ_self n) (hp.of_resolve he htype hpart) ?_ hr'
      rw [hscope]
      exact hw.of_le (Nat.le_succ n)
    | some identity =>
      obtain ⟨name, args, rfl⟩ := exists_eq_named hid
      obtain rfl := he.eq_named
      have hnew : name ∉ expanding := by
        intro hc
        obtain rfl := hw.scope_eq_nil (List.ne_nil_of_mem hc)
        exact hw.not_halts name hc h.halts
      have hg : guarded (some policy) expanding (.named name []) = none :=
        guarded_eq_none fun identity hi => Option.some.inj hi ▸ hnew
      -- At the least depth that suffices, the insides of the type have one level less.
      refine Ends.of_le hm (ends_guarded_of_parts hg hends fun type htype part hpart r' hr' => ?_)
      refine ih m hm (hp.of_resolve he htype hpart) ⟨fun _ => rfl, fun other ho => ?_⟩ hr'
      rcases List.mem_cons.mp ho with rfl | ho
      · have hs : other ∉ scope := fun hs => by
          rw [Package.parts_of_resolve_typeParam hs htype] at hpart
          exact absurd hpart List.not_mem_nil
        rwa [← unguarded_bare hs]
      · exact (hw.of_le (Nat.le_of_lt hm)).not_halts other ho

/-! ## Under a guard -/

/-- In a plain package the named types with parts are known by their declared names. -/
theorem bounded_plain (hp : p.Plain) : Bounded p p.typeNames fun _ e => e.Plain where
  part he htype hpart := hp.of_resolve he htype hpart
  text := by
    intro scope e type part identity he htype hpart hid
    obtain ⟨name, args, rfl⟩ := exists_eq_named hid
    obtain rfl := he.eq_named
    obtain rfl : name = identity := Option.some.inj hid
    exact Package.mem_typeNames_of_resolve htype hpart

/-! ## Functions -/

/-- Under the guard, every function has a description or an error. -/
theorem exists_describedAs_guarded (hp : p.Plain) (policy : CyclePolicy) {f : FuncDecl}
    (hf : ∀ q ∈ f.params, q.type.Plain) : ∃ r, DescribedAs p.provider (some policy) f r :=
  exists_describedAs (bounded_plain hp) hf

/-- Whatever a function comes to without the guard, it comes to under it. -/
theorem describedAs_guarded (hp : p.Plain) {f : FuncDecl} (hf : ∀ q ∈ f.params, q.type.Plain)
    {r : Except SchemaError FunctionDetails} (h : DescribedAs p.provider none f r)
    (policy : CyclePolicy) : DescribedAs p.provider (some policy) f r := by
  obtain ⟨depth, hr⟩ := h
  have hstart : Pending p depth [] f.typeParams := ⟨fun hne => absurd rfl hne, nofun⟩
  have hrefines : Refines (fun _ => True) (function p.provider none depth f)
      (function p.provider (some policy) depth f) := by
    refine refines_function (fun _ _ _ => trivial) fun e hs r' hr' _ => ?_
    obtain ⟨q, hq, rfl⟩ := hs.exists_mem
    exact ends_guarded_of_ends_unguarded hp (hf q hq) hstart hr'
  exact ⟨depth, hrefines r hr fun _ _ => trivial⟩

/-- Whatever a function comes to under the guard, other than a recursive type, it comes to without
    it. -/
theorem describedAs_unguarded {f : FuncDecl} {r : Except SchemaError FunctionDetails}
    (h : DescribedAs p.provider (some .error) f r)
    (hr : ∀ e, r = .error e → e.kind ≠ .recursiveType) : DescribedAs p.provider none f r := by
  refine describedAs_unguarded_of_no_cut (fun hcut => ?_) h
  obtain ⟨e, he, hkind⟩ := exists_recursiveType_iff_exists_cut.mpr hcut
  exact hr e (h.unique he) hkind

/-- In a plain package, the guard gives exactly the ends that there are without it. Where there is
    none, it gives an end all the same, which is the error of a recursive type if such types are
    errors. -/
theorem describedAs_guarded_iff (hp : p.Plain) {f : FuncDecl} (hf : ∀ q ∈ f.params, q.type.Plain) :
    (∀ r, DescribedAs p.provider none f r →
      ∀ policy r', DescribedAs p.provider (some policy) f r' ↔ r' = r) ∧
    ((¬ ∃ r, DescribedAs p.provider none f r) →
      (∀ policy, ∃ r, DescribedAs p.provider (some policy) f r) ∧
        ∃ e, DescribedAs p.provider (some .error) f (.error e) ∧ e.kind = .recursiveType) := by
  constructor
  · intro r h policy r'
    have hguarded := describedAs_guarded hp hf h policy
    exact ⟨fun h' => h'.unique hguarded, fun he => he ▸ hguarded⟩
  · intro hnone
    refine ⟨fun policy => exists_describedAs_guarded hp policy hf, ?_⟩
    obtain ⟨r, hr⟩ := exists_describedAs_guarded hp .error hf
    -- Any other end would be one without the guard.
    refine Classical.byContradiction fun hc => hnone ⟨r, describedAs_unguarded hr ?_⟩
    intro e he hkind
    exact hc ⟨e, he ▸ hr, hkind⟩

/-- `type Tree struct { Left, Right *Tree }`, and `func F[T any](v T, root Tree)`. -/
def treePackage : Package :=
  { units := [{ path := "tree.go", decls := [
      .type { name := "Tree", type := .struct [
        { names := ["Left", "Right"], type := .pointer (.named "Tree" []) }] }] }] }

def treeFunction : FuncDecl :=
  { name := "F", typeParams := ["T"]
    params := [{ names := ["v"], type := .named "T" [] },
      { names := ["root"], type := .named "Tree" [] }] }

/-- The description of the function with the recursive references cut. -/
def treeDetails : FunctionDetails :=
  let cut := Definition.null.withDescription "recursive reference to Tree"
  { name := "F", description := ""
    parameters :=
      { type := .object
        properties := [("v", .null), ("root",
          { type := .object
            properties := [("Left", cut), ("Right", cut)]
            required := ["Left", "Right"] })]
        required := ["v", "root"] } }

theorem describedAs_guarded_iff_tree :
    treePackage.Plain ∧ (∀ q ∈ treeFunction.params, q.type.Plain) ∧
      DescribedAs treePackage.provider (some .null) treeFunction (.ok treeDetails) ∧
      (¬ ∃ r, DescribedAs treePackage.provider none treeFunction r) ∧
      ∃ e, DescribedAs treePackage.provider (some .error) treeFunction (.error e) ∧
        e.kind = .recursiveType := by
  have hp : treePackage.Plain := by decide +kernel
  have hf : ∀ q ∈ treeFunction.params, q.type.Plain := by decide +kernel
  have hnull : DescribedAs treePackage.provider (some .null) treeFunction (.ok treeDetails) :=
    ⟨4, by with_unfolding_all rfl⟩
  have herror : DescribedAs treePackage.provider (some .error) treeFunction
      (.error (.parameter "root" (.recursiveType "Tree"))) := ⟨4, by with_unfolding_all rfl⟩
  obtain ⟨hends, hnone⟩ := describedAs_guarded_iff hp hf
  have hdiverges : ¬ ∃ r, DescribedAs treePackage.provider none treeFunction r := by
    rintro ⟨r, hr⟩
    have hok := (hends r hr .null _).mp hnull
    have hfails := (hends r hr .error _).mp herror
    simp [← hfails] at hok
  exact ⟨hp, hf, hnull, hdiverges, (hnone hdiverges).2⟩

end Expansion

end CallSchema
