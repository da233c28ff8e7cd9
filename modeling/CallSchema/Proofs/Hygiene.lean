import CallSchema.Proofs.Alike
import CallSchema.Proofs.Cuts

/-!
What the names of type parameters do to the description of a function.

A function and the same function with fresh names for its type parameters (`FuncDecl.rename`)
should have alike descriptions. The guard against recursive types goes by texts, though, and a text
does not tell a type parameter from a type of its name.

1. `alike_function`: the descriptions are alike, if the guard catches the same under either names
   (`SameCuts`).
2. `comes_renamed`: then the two expansions go the same ways.
3. `sameCuts_of_unshadowed`: the guard catches the same if the package nowhere refers to a type by
   the name of a type parameter.
4. `alike_rename_fails_on_shadow`: if it does, the descriptions may differ.
-/

namespace CallSchema

/-- The new name in place of an old one. -/
def FuncDecl.newName (f : FuncDecl) (names : List String) : String → String :=
  renamedName f.typeParams names

/-- What stands in place of an expression of the renamed function under the old names. -/
def FuncDecl.former (f : FuncDecl) (names : List String) (o : Occurrence) : Occurrence :=
  ⟨o.scope.map (f.oldName names), o.expr.renamed (f.oldName names)⟩

namespace Expansion

variable {p : Package} {policy : CyclePolicy} {f : FuncDecl} {names : List String}
  {path : List Occurrence} {o : Occurrence} {τ : String → String}

/-! ## Names along a way -/

theorem isSome_identity?_renamed (e : TypeExpr) :
    (identity? (e.renamed τ)).isSome = (identity? e).isSome := by
  cases e with
  | named name args =>
    rw [TypeExpr.renamed]
    split <;> rfl
  | _ => rfl

theorem isNamed_former : (f.former names o).IsNamed ↔ o.IsNamed := by
  rw [Occurrence.IsNamed, Occurrence.IsNamed, FuncDecl.former, isSome_identity?_renamed]

theorem extended_former (path : List Occurrence) (o : Occurrence) :
    extended (path.map (f.former names)) (f.former names o) =
      (extended path o).map (f.former names) := by
  unfold extended
  rw [FuncDecl.former, isSome_identity?_renamed]
  split <;> rfl

theorem innerScope_renamed (scope : List String) (e : TypeExpr) :
    innerScope (scope.map τ) (e.renamed τ) = (innerScope scope e).map τ := by
  unfold innerScope
  rw [isSome_identity?_renamed]
  split <;> rfl

/-! ## Under the same cuts -/

/-- Wherever the renamed function comes to, the guard catches under the old names exactly what it
    catches under the new ones. -/
def SameCuts (p : Package) (policy : CyclePolicy) (f : FuncDecl) (names : List String) : Prop :=
  ∀ path o, Comes p.provider policy (f.rename names) path o →
    ((guarded (some policy) (texts (path.map (f.former names)))
        (f.former names o).expr).isSome ↔
      (guarded (some policy) (texts path) o.expr).isSome)

theorem SameCuts.guarded_eq_none (hsame : SameCuts p policy f names)
    (hc : Comes p.provider policy (f.rename names) path o)
    (hg : guarded (some policy) (texts path) o.expr = none) :
    guarded (some policy) (texts (path.map (f.former names)))
      (f.former names o).expr = none := by
  have hcaught := hsame path o hc
  rw [hg] at hcaught
  simpa using hcaught

theorem alike_finished_of_renames {r r' : Except SchemaError ResolvedType}
    (h : Package.Renames τ r r') :
    Alike (fun type type' => Package.Renames τ (.ok type) (.ok type')) (finished r)
      (finished r') := by
  have hends : ∀ r : Except SchemaError ResolvedType, Ends (finished r) r :=
    fun _ => ends_finished.mpr rfl
  cases h with
  | error e => exact .error (hends _) (hends _) (.same e)
  | basic kind => exact .ok (hends _) (hends _) (.basic kind)
  | pointer e => exact .ok (hends _) (hends _) (.pointer e)
  | sequence e => exact .ok (hends _) (hends _) (.sequence e)
  | struct fields => exact .ok (hends _) (hends _) (.struct fields)
  | unsupported what what' => exact .ok (hends _) (hends _) (.unsupported what what')

/-- What a renamed function comes to is underneath what it is under the old names, renamed. -/
theorem renames_of_comes (hfresh : f.Fresh p names)
    (hc : Comes p.provider policy (f.rename names) path o) :
    Package.Renames (f.oldName names) (p.resolve o.scope o.expr)
      (p.resolve (f.former names o).scope (f.former names o).expr) :=
  Package.renames_resolve hfresh.fixed
    (inherited_of_comes (Package.inherited_kept hfresh.fixed) hfresh.kept hc).1

/-- The schemas of all that the renamed function comes to are alike under the old names. -/
theorem alike_typeDefinition (hfresh : f.Fresh p names) (hsame : SameCuts p policy f names)
    (depth : Nat) (hc : Comes p.provider policy (f.rename names) path o) :
    Alike Definition.Alike
      (typeDefinition p.provider (some policy) depth (texts path) o.scope o.expr)
      (typeDefinition p.provider (some policy) depth
        (texts (path.map (f.former names))) (f.former names o).scope
        (f.former names o).expr) := by
  induction depth generalizing path o with
  | zero => exact alike_tooDeep
  | succ depth ih =>
    cases hg : guarded (some policy) (texts path) o.expr with
    | some r =>
      obtain ⟨r', hg'⟩ := Option.isSome_iff_exists.mp ((hsame path o hc).mpr (by rw [hg]; rfl))
      -- The two references may have different texts, but are alike.
      rw [typeDefinition_caught hg, typeDefinition_caught hg']
      obtain ⟨_, identity, hpolicy, -, -, rfl⟩ := guarded_eq_some hg
      obtain ⟨_, identity', hpolicy', -, -, rfl⟩ := guarded_eq_some hg'
      obtain rfl := Option.some.inj hpolicy
      obtain rfl := Option.some.inj hpolicy'
      exact alike_recursiveReference policy identity identity'
    | none =>
      rw [typeDefinition_passed hg, typeDefinition_passed (hsame.guarded_eq_none hc hg),
        ← texts_extended, ← texts_extended, extended_former]
      refine (alike_finished_of_renames (renames_of_comes hfresh hc)).bind
        fun type type' htype hr => alike_resolvedDefinition (fun e hs => ?_) hr
      have hpart := ih (.part depth hc hg (ends_finished.mp htype).symm hs)
      rwa [FuncDecl.former, ← innerScope_renamed] at hpart

theorem alike_of_partStarted (hfresh : f.Fresh p names) (hsame : SameCuts p policy f names)
    {depth : Nat} {type : ResolvedType} {e : TypeExpr}
    (hc : Comes p.provider policy (f.rename names) path o)
    (hg : guarded (some policy) (texts path) o.expr = none)
    (hr : p.provider.resolve o.scope o.expr = .ok type)
    (hs : PartStarted (typeDefinition p.provider (some policy) depth (texts (extended path o))
      (innerScope o.scope o.expr)) type e) :
    Alike Definition.Alike
      (typeDefinition p.provider (some policy) depth (texts (extended path o))
        (innerScope o.scope o.expr) e)
      (typeDefinition p.provider (some policy) depth
        (texts (extended (path.map (f.former names)) (f.former names o)))
        (innerScope (f.former names o).scope (f.former names o).expr)
        (e.renamed (f.oldName names))) := by
  have hpart := alike_typeDefinition hfresh hsame depth (.part depth hc hg hr hs)
  rwa [FuncDecl.former, ← innerScope_renamed, ← extended_former] at hpart

theorem alike_of_started (hfresh : f.Fresh p names) (hsame : SameCuts p policy f names)
    {depth : Nat} {e : TypeExpr}
    (hs : Started (typeDefinition p.provider (some policy) depth [] names)
      (f.rename names).params e) :
    Alike Definition.Alike (typeDefinition p.provider (some policy) depth [] names e)
      (typeDefinition p.provider (some policy) depth [] f.typeParams
        (e.renamed (f.oldName names))) := by
  have hparam := alike_typeDefinition hfresh hsame depth (.parameter depth hs)
  rwa [FuncDecl.former, FuncDecl.rename, hfresh.map_oldName] at hparam

/-- A function and the same function with fresh names for its type parameters have alike
    descriptions, if the guard catches the same under either names. -/
theorem alike_function (hfresh : f.Fresh p names) (hsame : SameCuts p policy f names)
    (depth : Nat) :
    Alike FunctionDetails.Alike (function p.provider (some policy) depth (f.rename names))
      (function p.provider (some policy) depth f) := by
  have hstarted : ∀ e, Started (typeDefinition p.provider (some policy) depth [] names)
      (f.rename names).params e → _ := fun _ hs => alike_of_started hfresh hsame hs
  have hparams := alike_insertParameters 0 hstarted (.leaf .object)
  rw [hfresh.params_eq] at hparams
  exact (hparams.map fun _ _ hd => hd.singleProperty?).map fun _ _ hd => ⟨rfl, rfl, hd⟩

/-- Then the description of the function comes, under the old names, wherever that of the renamed
    function does. -/
theorem comes_renamed (hfresh : f.Fresh p names) (hsame : SameCuts p policy f names)
    (hc : Comes p.provider policy (f.rename names) path o) :
    Comes p.provider policy f (path.map (f.former names))
      (f.former names o) := by
  induction hc with
  | parameter depth started =>
    have hs := started.of_alike fun e hs => alike_of_started hfresh hsame hs
    rw [hfresh.params_eq] at hs
    rw [FuncDecl.former, FuncDecl.rename, hfresh.map_oldName]
    exact .parameter depth hs
  | @part depth path o type e hc passed resolved started ih =>
    have hresolved : p.resolve o.scope o.expr = .ok type := resolved
    have hrenames := renames_of_comes hfresh hc
    rw [hresolved] at hrenames
    obtain ⟨type', htype', hr⟩ := hrenames.exists_ok
    have hs := started.of_alike
      (fun e hs => alike_of_partStarted hfresh hsame hc passed resolved hs) hr
    have hpart := Comes.part depth ih (hsame.guarded_eq_none hc passed) htype' hs
    rwa [extended_former, FuncDecl.former, innerScope_renamed] at hpart

/-- The guard catches the same under either names exactly if the two expansions go the same ways
    and are cut at the same places. -/
theorem sameCuts_iff (hfresh : f.Fresh p names) : SameCuts p policy f names ↔
    ∀ path o, Comes p.provider policy (f.rename names) path o →
      Comes p.provider policy f (path.map (f.former names))
          (f.former names o) ∧
        (Cut p.provider policy f (path.map (f.former names))
            (f.former names o) ↔
          Cut p.provider policy (f.rename names) path o) := by
  constructor
  · intro hsame path o hc
    have hc' := comes_renamed hfresh hsame hc
    refine ⟨hc', fun hcut => ⟨hc, ?_⟩, fun hcut => ⟨hc', ?_⟩⟩
    · exact (hsame path o hc).mp hcut.caught
    · exact (hsame path o hc).mpr hcut.caught
  · intro h path o hc
    obtain ⟨hc', hcut⟩ := h path o hc
    exact ⟨fun hcaught => (hcut.mp ⟨hc', hcaught⟩).caught,
      fun hcaught => (hcut.mpr ⟨hc, hcaught⟩).caught⟩

end Expansion

/-! ## Type parameters that share no name with a type -/

namespace TypeExpr

/-- The names at the head of an expression that stand for themselves where `bound` are the type
    parameters. -/
def freeNames (bound : List String) : TypeExpr → List String
  | .named name args => if args = [] ∧ name ∉ bound then [name] else []
  | .other text => [text]
  | _ => []

end TypeExpr

/-- Where `bound` are the type parameters, the head of an expression is no declared type with fewer
    arguments than it has parameters. -/
def Package.saturates (p : Package) (bound : List String) : TypeExpr → Bool
  | .named name args =>
    args.isEmpty && bound.contains name ||
      (p.typeDecl? name).all fun d => d.typeParams.length ≤ args.length
  | _ => true

/-- The head of an expression is no free name of a type parameter of the function, and has all its
    arguments. -/
def FuncDecl.Apart (f : FuncDecl) (p : Package) (bound : List String) (e : TypeExpr) : Prop :=
  (∀ name ∈ e.freeNames bound, name ∉ f.typeParams) ∧ p.saturates bound e = true

instance (f : FuncDecl) (p : Package) (bound : List String) : DecidablePred (f.Apart p bound) :=
  fun e => inferInstanceAs
    (Decidable ((∀ name ∈ e.freeNames bound, name ∉ f.typeParams) ∧ p.saturates bound e = true))

/-- Neither a declared type nor a parameter refers to a type by the name of a type parameter of the
    function, and all references to types have their arguments. -/
structure FuncDecl.Unshadowed (f : FuncDecl) (p : Package) : Prop where
  nodup : f.typeParams.Nodup
  types : ∀ d ∈ p.types, d.type.All (f.Apart p d.typeParams)
  params : ∀ q ∈ f.params, q.type.All (f.Apart p f.typeParams)

namespace Expansion

open TypeExpr (All WellNamed IsName substituteName)

variable {p : Package} {policy : CyclePolicy} {f : FuncDecl} {names : List String}
  {path : List Occurrence} {o : Occurrence} {e : TypeExpr}

/-- The renaming of type parameters that takes the renamed function's back can be undone at the
    head of an expression, which has all its arguments. -/
def Told (p : Package) (f : FuncDecl) (names scope : List String) (e : TypeExpr) : Prop :=
  (∀ name ∈ e.leafNames, f.newName names (f.oldName names name) = name) ∧
    p.saturates scope e = true

theorem newName_oldName_of_mem (hfresh : f.Fresh p names) (hnodup : f.typeParams.Nodup)
    {name : String} (h : name ∈ names) :
    f.newName names (f.oldName names name) = name := by
  obtain ⟨i, hi, rfl⟩ := List.mem_iff_getElem.mp h
  have hi' : i < f.typeParams.length := hfresh.length_eq ▸ hi
  rw [FuncDecl.newName, FuncDecl.oldName, renamedName_getElem hfresh.nodup hi hi',
    renamedName_getElem hnodup hi' hi]

theorem newName_oldName_of_notMem {name : String} (h : name ∉ names) (h' : name ∉ f.typeParams) :
    f.newName names (f.oldName names name) = name := by
  rw [FuncDecl.newName, FuncDecl.oldName, renamedName_of_notMem h, renamedName_of_notMem h']

/-- Below anything but a bare name, substitution leaves heads as they are. -/
theorem Told.substitute {bound scope params : List String} {args : List TypeExpr}
    (hne : ∀ name, e ≠ .named name []) (h : Told p f names bound e) :
    Told p f names scope (e.substitute params args) := by
  rw [TypeExpr.substitute_eq_mapChildren hne]
  cases e with
  | named name own =>
    have hown : own ≠ [] := fun hnil => hne name (hnil ▸ rfl)
    obtain ⟨-, hsat⟩ := h
    refine ⟨by simp [TypeExpr.mapChildren, TypeExpr.leafNames, hown], ?_⟩
    simpa [TypeExpr.mapChildren, Package.saturates, hown] using hsat
  | other text => exact ⟨h.1, rfl⟩
  | _ => exact ⟨List.forall_mem_nil _, rfl⟩

theorem told_bare {scope : List String} {name : String}
    (hname : f.newName names (f.oldName names name) = name)
    (hsat : p.saturates scope (.named name []) = true) :
    All (Told p f names scope) (.named name []) := by
  refine .intro ⟨fun other hm => ?_, hsat⟩ nofun
  obtain rfl := List.mem_singleton.mp hm
  exact hname

theorem told_of_apart {bound : List String} (hne : ∀ name, e ≠ .named name [])
    (hapart : f.Apart p bound e) (hfresh : ∀ name ∈ e.headNames, name ∉ names) :
    Told p f names bound e := by
  obtain ⟨hfree, hsat⟩ := hapart
  cases e with
  | named name own =>
    have hown : own ≠ [] := fun hnil => hne name (hnil ▸ rfl)
    refine ⟨by simp [TypeExpr.leafNames, hown], ?_⟩
    simpa [Package.saturates, hown] using hsat
  | other text =>
    refine ⟨fun name hm => ?_, rfl⟩
    exact newName_oldName_of_notMem (hfresh name hm) (hfree name hm)
  | _ => exact ⟨List.forall_mem_nil _, rfl⟩

/-- What is put in for bound names is all that has to be looked at. -/
theorem all_told_substitute {bound scope : List String} {args : List TypeExpr}
    (he : e.All fun e => f.Apart p bound e ∧ ∀ name ∈ e.headNames, name ∉ names)
    (hargs : ∀ name ∈ bound, (substituteName bound args name).All (Told p f names scope)) :
    (e.substitute bound args).All (Told p f names scope) := by
  refine All.of_substitute (fun name h => ?_) (fun e hne h => ?_) he
  · obtain ⟨⟨hfree, hsat⟩, hfresh⟩ := h
    by_cases hm : name ∈ bound
    · exact hargs name hm
    · rw [TypeExpr.substituteName_of_notMem hm]
      have hnot : name ∉ f.typeParams := hfree name (by simp [TypeExpr.freeNames, hm])
      refine told_bare (newName_oldName_of_notMem (hfresh name List.mem_cons_self) hnot) ?_
      rw [Package.saturates, Bool.or_eq_true] at hsat ⊢
      exact .inr (hsat.resolve_left (by simp [hm]))
  · have htold : Told p f names bound e := told_of_apart hne h.1 h.2
    exact htold.substitute hne

/-- The same for type parameters that are made opaque. -/
theorem all_told_unbound {scope : List String} (he : e.All (Told p f names scope)) :
    (e.substitute scope []).All (Told p f names []) := by
  refine All.of_substitute (fun name h => ?_) (fun e hne h => h.substitute hne) he
  obtain ⟨hleaf, hsat⟩ := h
  have hname := hleaf name List.mem_cons_self
  by_cases hm : name ∈ scope
  · rw [TypeExpr.substituteName_nil_of_mem hm]
    refine .intro ⟨fun other ho => ?_, rfl⟩ nofun
    obtain rfl := List.mem_singleton.mp ho
    exact hname
  · rw [TypeExpr.substituteName_of_notMem hm]
    rw [Package.saturates, Bool.or_eq_true] at hsat
    refine told_bare hname ?_
    rw [Package.saturates, Bool.or_eq_true]
    exact .inr (hsat.resolve_left (by simp [hm]))

theorem inherited_told (hfresh : f.Fresh p names) (hun : f.Unshadowed p) :
    p.Inherited fun scope e => e.All (Told p f names scope) where
  child he hc := (TypeExpr.all_iff.mp he).2 _ hc
  body := by
    intro scope name args d he hs hd
    obtain ⟨⟨-, hsat⟩, hargs⟩ := TypeExpr.all_iff.mp he
    have hmem : d ∈ p.types := List.mem_of_find?_eq_some hd
    have hlength : d.typeParams.length ≤ args.length := by
      simpa [Package.saturates, hd, hs] using hsat
    have hdecl := (hun.types d hmem).and (hfresh.types d hmem)
    -- With all its arguments, the declaration has no parameter that would become opaque.
    refine all_told_substitute hdecl fun param hparam => ?_
    obtain ⟨a, ha, hparam⟩ := TypeExpr.exists_substituteName_eq hparam
      (show d.typeParams.length ≤ (args.map (TypeExpr.substitute scope [])).length by
        simpa using hlength)
    obtain ⟨a', ha', rfl⟩ := List.mem_map.mp ha
    rw [hparam]
    exact all_told_unbound (hargs a' ha')

theorem told_params (hfresh : f.Fresh p names) (hun : f.Unshadowed p) :
    ∀ q ∈ (f.rename names).params, q.type.All (Told p f names (f.rename names).typeParams) := by
  intro q' hq'
  obtain ⟨q, hq, rfl⟩ := List.mem_map.mp hq'
  refine all_told_substitute ((hun.params q hq).and (hfresh.params q hq)) fun name hname => ?_
  obtain ⟨i, hi, hs, -⟩ := hfresh.exists_substituteName hname
  rw [hs]
  have hm : names[i] ∈ (f.rename names).typeParams := List.getElem_mem hi
  refine told_bare (newName_oldName_of_mem hfresh hun.nodup hm) ?_
  rw [Package.saturates, Bool.or_eq_true]
  exact .inl (by simp [hm])

/-- If all names are words and the type parameters share none with a type that is referred to, the
    guard catches the same whatever the type parameters are called. -/
theorem sameCuts_of_unshadowed (hp : ∀ d ∈ p.types, d.type.WellNamed)
    (hf : ∀ q ∈ f.params, q.type.WellNamed) (hwords : ∀ name ∈ f.typeParams ++ names, IsName name)
    (hfresh : f.Fresh p names) (hun : f.Unshadowed p) : SameCuts p policy f names := by
  have hold : ∀ name, IsName name → IsName (f.oldName names name) := fun name hname =>
    isName_renamedName hname fun other ho => hwords other (List.mem_append_left _ ho)
  have hparams : ∀ q ∈ (f.rename names).params, q.type.WellNamed := by
    intro q' hq'
    obtain ⟨q, hq, rfl⟩ := List.mem_map.mp hq'
    refine All.substitute TypeExpr.stable_wellNamed (hf q hq) fun a ha => ?_
    obtain ⟨name, hname, rfl⟩ := List.mem_map.mp ha
    exact .intro (by simpa [TypeExpr.headNames] using hwords name (List.mem_append_right _ hname))
      nofun
  intro path o hc
  obtain ⟨ho, hpath⟩ := inherited_of_comes (inherited_told hfresh hun) (told_params hfresh hun) hc
  obtain ⟨hoWords, hpathWords⟩ := all_of_comes TypeExpr.stable_wellNamed hp hparams hc
  have htext : ∀ m ∈ path, (m.expr.renamed (f.oldName names)).display =
      (o.expr.renamed (f.oldName names)).display ↔ m.expr.display = o.expr.display :=
    fun m hm => TypeExpr.display_renamed_iff hold (hpathWords m hm) hoWords
      ((hpath m hm).imp fun _ h => h.1) (ho.imp fun _ h => h.1)
  rw [isSome_guarded, isSome_guarded, isNamed_former]
  refine and_congr_right fun _ => ?_
  simp only [List.mem_map, exists_exists_and_eq_and]
  exact exists_congr fun m => and_congr_right fun hm => htext m hm

/-! ## Fresh names -/

/-- A function and the same function with fresh names for its type parameters have alike
    descriptions at every depth, if the guard catches the same under either names: exactly if the
    two expansions go the same ways and are cut at the same places. So it is where names are words
    and the type parameters share none with a type that is referred to. -/
theorem alike_rename (p : Package) (policy : CyclePolicy) (f : FuncDecl) (names : List String)
    (hfresh : f.Fresh p names) :
    (SameCuts p policy f names ↔
      ∀ path o, Comes p.provider policy (f.rename names) path o →
        Comes p.provider policy f (path.map (f.former names))
            (f.former names o) ∧
          (Cut p.provider policy f (path.map (f.former names))
              (f.former names o) ↔
            Cut p.provider policy (f.rename names) path o)) ∧
    (SameCuts p policy f names → ∀ depth,
      Alike FunctionDetails.Alike (function p.provider (some policy) depth (f.rename names))
        (function p.provider (some policy) depth f)) ∧
    ((∀ d ∈ p.types, d.type.WellNamed) → (∀ q ∈ f.params, q.type.WellNamed) →
      (∀ name ∈ f.typeParams ++ names, IsName name) → f.Unshadowed p →
        SameCuts p policy f names) :=
  ⟨sameCuts_iff hfresh, fun hsame depth => alike_function hfresh hsame depth,
    fun hp hf hwords hun => sameCuts_of_unshadowed hp hf hwords hfresh hun⟩

/-- `type Node[V any] struct { Value V; Next *Node[V] }`. -/
def nodePackage : Package :=
  { units := [{ path := "node.go", decls := [
      .type { name := "Node", typeParams := ["V"], type := .struct [
        { names := ["Value"], type := .named "V" [] },
        { names := ["Next"], type := .pointer (.named "Node" [.named "V" []]) }] }] }] }

/-- `func F[V any](n Node[V], v V)`. -/
def nodeFunction : FuncDecl :=
  { name := "F", typeParams := ["V"]
    params := [{ names := ["n"], type := .named "Node" [.named "V" []] },
      { names := ["v"], type := .named "V" [] }] }

/-- The type parameter of the function may be called like that of the type. -/
theorem alike_rename_node :
    nodeFunction.Fresh nodePackage ["K"] ∧
      SameCuts nodePackage .null nodeFunction ["K"] ∧
      Alike FunctionDetails.Alike
        (function nodePackage.provider (some .null) 5 (nodeFunction.rename ["K"]))
        (function nodePackage.provider (some .null) 5 nodeFunction) := by
  have hfresh : nodeFunction.Fresh nodePackage ["K"] :=
    ⟨rfl, by decide, by decide +kernel, by decide +kernel⟩
  have hun : nodeFunction.Unshadowed nodePackage :=
    ⟨by decide, by decide +kernel, by decide +kernel⟩
  obtain ⟨-, halike, hsame⟩ := alike_rename nodePackage .null nodeFunction ["K"] hfresh
  have hcuts := hsame (by decide +kernel) (by decide +kernel) (by decide +kernel) hun
  exact ⟨hfresh, hcuts, halike hcuts 5⟩

/-- What the box of the type parameter comes to, given what its next box does. -/
def shadowDetails (next : Definition) : FunctionDetails :=
  { name := "F", description := ""
    parameters :=
      { type := .object
        properties := [("Item", .null), ("Next", next)]
        required := ["Item", "Next"] } }

/-- The box of the type `T`. -/
def shadowNext : Definition :=
  { type := .object
    properties := [
      ("Item",
        { type := .object, properties := [("A", { type := .integer })], required := ["A"] }),
      ("Next", .withDescription .null "recursive reference to Box[T]")]
    required := ["Item", "Next"] }

/-- A box of the type `T` is cut below one of the type parameter `T`, and not below one of the type
    parameter `U`, which is fresh. -/
theorem alike_rename_fails_on_shadow :
    shadowFunction.Fresh shadowPackage ["U"] ∧ "U" ∉ shadowPackage.typeNames ∧
      predeclared? "U" = none ∧
      DescribedAs shadowPackage.provider (some .null) shadowFunction
        (.ok (shadowDetails (.withDescription .null "recursive reference to Box[T]"))) ∧
      DescribedAs shadowPackage.provider (some .null) (shadowFunction.rename ["U"])
        (.ok (shadowDetails shadowNext)) ∧
      ¬ (shadowDetails shadowNext).Alike
        (shadowDetails (.withDescription .null "recursive reference to Box[T]")) := by
  have hfresh : shadowFunction.Fresh shadowPackage ["U"] :=
    ⟨rfl, by decide, by decide +kernel, by decide +kernel⟩
  refine ⟨hfresh, by decide, by decide, ⟨7, by with_unfolding_all rfl⟩,
    ⟨7, by with_unfolding_all rfl⟩, ?_⟩
  rintro ⟨-, -, ⟨-, -, -, -, hproperties, -⟩⟩
  cases hproperties with
  | cons _ hrest =>
    cases hrest with
    | cons hnext _ =>
      obtain ⟨_, ⟨htype, -, -, -, -, -⟩⟩ := hnext
      exact absurd htype (by decide)

end Expansion

end CallSchema
