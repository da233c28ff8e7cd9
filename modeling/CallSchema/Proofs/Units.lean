import CallSchema.Proofs.Subterms
import Mathlib.Data.List.Nodup

/-!
What a description needs to know about the units of a package.

A description looks at a package twice: it asks for the functions of one name, and it follows names
to their declarations. Two packages whose links agree, but for those that end in an error, describe
a function alike, but for that error (`refines_function_of_linksAgree`).

1. `describeFunction?_of_interleaved`: further units change no description, if they declare neither
   the function nor a type of a name that has a meaning already. They may give a meaning to names
   without one, at which a description would have failed.
2. `sameOutcome_of_perm`: the order of the units is of no matter, if no type name is declared twice
   and the lookup of the function does not depend on it. A lookup that wants the only function of a
   name does not.
-/

namespace CallSchema

/-! ## Declarations by name -/

/-- `merged` holds the elements of `base` and those of `added`, both in order, one list anywhere
    among the other. -/
inductive Interleaved {α : Type} : (base added merged : List α) → Prop
  | nil : Interleaved [] [] []
  | base {x : α} {base added merged : List α} (h : Interleaved base added merged) :
      Interleaved (x :: base) added (x :: merged)
  | added {x : α} {base added merged : List α} (h : Interleaved base added merged) :
      Interleaved base (x :: added) (x :: merged)

/-- What the added elements have nothing of is left as it was. -/
theorem Interleaved.flatMap_eq {α β : Type} {base added merged : List α} {f : α → List β}
    (h : Interleaved base added merged) (hf : ∀ x ∈ added, f x = []) :
    merged.flatMap f = base.flatMap f := by
  induction h with
  | nil => rfl
  | base _ ih => rw [List.flatMap_cons, List.flatMap_cons, ih hf]
  | added _ ih =>
    obtain ⟨hx, hadded⟩ := List.forall_mem_cons.mp hf
    rw [List.flatMap_cons, hx, List.nil_append, ih hadded]

/-- The types that the units declare under the name. -/
def typesNamed (units : List SourceUnit) (name : String) : List TypeDecl :=
  units.flatMap fun unit => unit.types.filter (·.name == name)

namespace Package

theorem filter_types (p : Package) (name : String) :
    p.types.filter (·.name == name) = typesNamed p.units name := by
  rw [types, typesNamed, List.filter_flatMap]

theorem typeDecl?_eq_head? (p : Package) (name : String) :
    p.typeDecl? name = (typesNamed p.units name).head? := by
  rw [← filter_types, List.head?_filter, typeDecl?]

end Package

/-- Units that declare no function of the name change nothing about its lookup. -/
theorem functionsNamed_of_interleaved {base added merged : List SourceUnit} {name : String}
    (h : Interleaved base added merged)
    (hadded : ∀ unit ∈ added, ∀ f ∈ unit.functions, f.name ≠ name) :
    functionsNamed merged name = functionsNamed base name := by
  refine h.flatMap_eq fun unit hunit => ?_
  have hnone : unit.functions.filter (·.name == name) = [] :=
    List.filter_eq_nil_iff.mpr fun f hf => by simpa using hadded unit hunit f hf
  rw [hnone, List.map_nil]

/-- Units that declare no type of the name change nothing about its declaration. -/
theorem typeDecl?_of_interleaved {base added merged : List SourceUnit} {name : String}
    (h : Interleaved base added merged)
    (hadded : ∀ unit ∈ added, ∀ d ∈ unit.types, d.name ≠ name) :
    Package.typeDecl? ⟨merged⟩ name = Package.typeDecl? ⟨base⟩ name := by
  have hnamed : typesNamed merged name = typesNamed base name := by
    refine h.flatMap_eq fun unit hunit => ?_
    exact List.filter_eq_nil_iff.mpr fun d hd => by simpa using hadded unit hunit d hd
  rw [Package.typeDecl?_eq_head?, Package.typeDecl?_eq_head?]
  exact congrArg List.head? hnamed

/-- A list of at most one element has no other order. -/
theorem eq_of_perm_of_length_le_one {α : Type} {l l' : List α} (h : l.Perm l')
    (hl : l.length ≤ 1) : l' = l := by
  match l with
  | [] => exact List.nil_perm.mp h
  | [x] => exact List.perm_singleton.mp h.symm
  | _ :: _ :: _ => simp at hl

theorem functionsNamed_perm {units units' : List SourceUnit} (h : units.Perm units')
    (name : String) : (functionsNamed units name).Perm (functionsNamed units' name) :=
  h.flatMap_right _

/-- Of a name that is declared at most once, the units declare the same type in any order. -/
theorem typeDecl?_of_perm {units units' : List SourceUnit} (h : units.Perm units')
    (hn : (Package.mk units).typeNames.Nodup) (name : String) :
    Package.typeDecl? ⟨units'⟩ name = Package.typeDecl? ⟨units⟩ name := by
  have hperm : (typesNamed units name).Perm (typesNamed units' name) := h.flatMap_right _
  have hone : (typesNamed units name).length ≤ 1 := by
    have hcount := List.nodup_iff_count_le_one.mp hn name
    rwa [Package.typeNames, List.count, List.countP_map, List.countP_eq_length_filter,
      show ((· == name) ∘ TypeDecl.name) = (fun d : TypeDecl => d.name == name) from rfl,
      Package.filter_types] at hcount
  rw [Package.typeDecl?_eq_head?, Package.typeDecl?_eq_head?]
  exact congrArg List.head? (eq_of_perm_of_length_le_one hperm hone)

/-! ## Chains -/

namespace Package

variable {E : SchemaError → Prop} {p q : Package}

/-- The links of the packages are the same, but for those of the first one that end in an error
    outside of the class. -/
def LinksAgree (E : SchemaError → Prop) (p q : Package) : Prop :=
  ∀ scope e, q.link scope e = p.link scope e ∨
    ∃ error, p.link scope e = .ends (.error error) ∧ ¬ E error

/-- A name without a declaration may mean something else elsewhere only if it means nothing here. -/
theorem linksAgree_of_typeDecl?
    (h : ∀ name, q.typeDecl? name = p.typeDecl? name ∨
      p.typeDecl? name = none ∧ predeclared? name = none ∧ ¬ E (.unresolvedType name)) :
    LinksAgree E p q := by
  intro scope e
  cases e with
  | named name args =>
    rw [link_named, link_named]
    by_cases hscope : args = [] ∧ name ∈ scope
    · left
      rw [if_pos hscope, if_pos hscope]
    · rw [if_neg hscope, if_neg hscope]
      rcases h name with hsame | ⟨hnone, hpre, hE⟩
      · exact .inl (by rw [hsame])
      · exact .inr ⟨.unresolvedType name, by rw [hnone, hpre], hE⟩
  | _ => exact .inl rfl

/-- A link that goes on is the same in both packages. -/
theorem LinksAgree.link_eq (h : LinksAgree E p q) {scope : List String} {e body : TypeExpr}
    {name : String} (hl : p.link scope e = .follows name body) :
    q.link scope e = .follows name body := by
  rcases h scope e with hsame | ⟨error, herror, -⟩
  · exact hsame.trans hl
  · exact absurd (hl.symm.trans herror) nofun

theorem mem_typeNames_of_link {scope : List String} {e body : TypeExpr} {name : String}
    (hl : p.link scope e = .follows name body) : name ∈ p.typeNames := by
  obtain ⟨args, d, rfl, -, hd, -⟩ := link_follows hl
  exact mem_typeNames_of_typeDecl? hd

/-- Chains agree as links do. The lists of fresh names may differ in names that nothing enters. -/
theorem LinksAgree.follow (h : LinksAgree E p q) {fresh fresh' : List String}
    (hfresh : ∀ name ∈ p.typeNames, name ∈ fresh ↔ name ∈ fresh') (scope : List String)
    (e : TypeExpr) :
    q.follow fresh' scope e = p.follow fresh scope e ∨
      ∃ error, p.follow fresh scope e = .error error ∧ ¬ E error := by
  fun_induction Package.follow p fresh scope e generalizing fresh' with
  | case1 fresh scope e result hl =>
    rcases h scope e with hsame | ⟨error, herror, hE⟩
    · exact .inl (follow_of_ends (hsame.trans hl))
    · obtain rfl := Link.ends.inj (hl.symm.trans herror)
      exact .inr ⟨error, rfl, hE⟩
  | case2 fresh scope e name body hl hm ih =>
    have hm' : name ∈ fresh' := (hfresh name (mem_typeNames_of_link hl)).mp hm
    rw [follow_of_mem (h.link_eq hl) hm']
    refine ih fun other hother => ?_
    simp [without, hfresh other hother]
  | case3 fresh scope e name body hl hm =>
    have hm' : name ∉ fresh' := mt (hfresh name (mem_typeNames_of_link hl)).mpr hm
    exact .inl (follow_of_notMem (h.link_eq hl) hm')

theorem LinksAgree.typeNames_subset (h : LinksAgree E p q) : p.typeNames ⊆ q.typeNames := by
  intro name hname
  cases hd : p.typeDecl? name with
  | none =>
    obtain ⟨d, hmem, hdname⟩ := List.mem_map.mp hname
    have hnot := List.find?_eq_none.mp hd d hmem
    simp [hdname] at hnot
  | some d =>
    have hl : p.link [] (.named name []) = .follows name (instantiate d [] []) := by
      rw [link_named, if_neg (by simp), hd]
    exact mem_typeNames_of_link (h.link_eq hl)

/-- What an expression is underneath in one package, it is in the other. -/
theorem LinksAgree.refines_resolve (h : LinksAgree E p q) (scope : List String) (e : TypeExpr) :
    Expansion.Refines E (Expansion.finished (p.resolve scope e))
      (Expansion.finished (q.resolve scope e)) := by
  have hfresh : ∀ name ∈ p.typeNames, name ∈ p.typeNames ↔ name ∈ q.typeNames :=
    fun name hname => iff_of_true hname (h.typeNames_subset hname)
  intro r hr hE
  obtain rfl := Expansion.ends_finished.mp hr
  rcases h.follow hfresh scope e with hsame | ⟨error, herror, hnot⟩
  · exact Expansion.ends_finished.mpr hsame.symm
  · exact absurd (hE error herror) hnot

end Package

/-! ## Descriptions -/

namespace Expansion

variable {α : Type} {E : SchemaError → Prop} {provider provider' : Provider}
  {guard : Option CyclePolicy}

/-- Schemas follow the types behind expressions. -/
theorem refines_typeDefinition_of_resolve
    (h : ∀ scope e, Refines E (finished (provider.resolve scope e))
      (finished (provider'.resolve scope e)))
    (depth : Nat) (expanding scope : List String) (e : TypeExpr) :
    Refines E (typeDefinition provider guard depth expanding scope e)
      (typeDefinition provider' guard depth expanding scope e) := by
  induction depth generalizing expanding scope e with
  | zero => exact Refines.refl _
  | succ depth ih =>
    cases hg : guarded guard expanding e with
    | some r =>
      rw [typeDefinition_caught hg, typeDefinition_caught hg]
      exact Refines.refl _
    | none =>
      rw [typeDefinition_passed hg, typeDefinition_passed hg]
      exact (h scope e).bind fun type _ => refines_resolvedDefinition fun part _ => ih _ _ part

/-- Functions are described alike where links agree. -/
theorem refines_function_of_linksAgree {p q : Package} (h : p.LinksAgree E q)
    (hE : ∀ label e, E (.parameter label e) → E e) (depth : Nat) (f : FuncDecl) :
    Refines E (function p.provider guard depth f) (function q.provider guard depth f) := by
  have htypes : ∀ e, Refines E (typeDefinition p.provider guard depth [] f.typeParams e)
      (typeDefinition q.provider guard depth [] f.typeParams e) :=
    refines_typeDefinition_of_resolve h.refines_resolve depth [] f.typeParams
  have hparameters := refines_insertParameters 0 .object hE fun e (_ : Started _ f.params e) =>
    htypes e
  exact (hparameters.bind fun _ _ => Refines.refl _).bind fun _ _ => Refines.refl _

/-- Expansions that refine each other come to the same. -/
theorem run_eq_of_refines {x y : Expansion α} (h : Refines (fun _ => True) x y)
    (h' : Refines (fun _ => True) y x) : ExceptT.run x = ExceptT.run y :=
  Option.ext fun r => ⟨fun hr => h r hr fun _ _ => trivial, fun hr => h' r hr fun _ _ => trivial⟩

end Expansion

section Found

variable {units : List SourceUnit} {name : String} {cycles : CyclePolicy}
  {duplicates : DuplicatePolicy}

theorem describeFunction?_of_not_found {e : SchemaError}
    (h : findFunction units name duplicates = .error e) (depth : Nat) :
    describeFunction? (Package.provider ⟨units⟩) depth name ⟨cycles, duplicates⟩ =
      some (.error e) := by
  simp only [describeFunction?, Package.provider, h]

theorem describeFunction?_of_found {f : FuncDecl} (h : findFunction units name duplicates = .ok f)
    (depth : Nat) :
    describeFunction? (Package.provider ⟨units⟩) depth name ⟨cycles, duplicates⟩ =
      ExceptT.run (Expansion.function (Package.provider ⟨units⟩) (some cycles) depth f) := by
  simp only [describeFunction?, Package.provider, h]

/-- The lookup of a function looks at the functions of its name. -/
theorem findFunction_congr {units' : List SourceUnit} (policy : DuplicatePolicy)
    (h : functionsNamed units name = functionsNamed units' name) :
    findFunction units name policy = findFunction units' name policy := by
  unfold findFunction
  rw [h]

end Found

/-! ## Further units -/

section Further

variable {base added merged : List SourceUnit} {name : String}

/-- Names that have a meaning keep it, if no added unit declares them. -/
theorem linksAgree_of_interleaved (h : Interleaved base added merged)
    (htypes : ∀ unit ∈ added, ∀ d ∈ unit.types,
      predeclared? d.name = none ∧ d.name ∉ (Package.mk base).typeNames) :
    Package.LinksAgree (fun e => e.kind ≠ .typeResolution) ⟨base⟩ ⟨merged⟩ := by
  refine Package.linksAgree_of_typeDecl? fun name => ?_
  by_cases hadded : ∃ unit ∈ added, ∃ d ∈ unit.types, d.name = name
  · obtain ⟨unit, hunit, d, hd, rfl⟩ := hadded
    obtain ⟨hpre, hbase⟩ := htypes unit hunit d hd
    have hnone : Package.typeDecl? ⟨base⟩ d.name = none :=
      Option.eq_none_iff_forall_ne_some.mpr fun _ hsome =>
        hbase (Package.mem_typeNames_of_typeDecl? hsome)
    exact .inr ⟨hnone, hpre, fun hE => hE rfl⟩
  · left
    refine typeDecl?_of_interleaved h fun unit hunit d hd hname => ?_
    exact hadded ⟨unit, hunit, d, hd, hname⟩

/-- Further units, put anywhere among those of a package, leave the description of a function as it
    is, if they declare no function of its name and no type whose name is predeclared or declared
    already. So it is with every error but that of a name without a meaning, which the further units
    may declare. -/
theorem describeFunction?_of_interleaved (h : Interleaved base added merged)
    (hfunctions : ∀ unit ∈ added, ∀ f ∈ unit.functions, f.name ≠ name)
    (htypes : ∀ unit ∈ added, ∀ d ∈ unit.types,
      predeclared? d.name = none ∧ d.name ∉ (Package.mk base).typeNames)
    (depth : Nat) (options : TranslateOptions) :
    (∀ details,
      describeFunction? (Package.provider ⟨base⟩) depth name options = some (.ok details) →
        describeFunction? (Package.provider ⟨merged⟩) depth name options = some (.ok details)) ∧
    ∀ e, e.kind ≠ .typeResolution →
      describeFunction? (Package.provider ⟨base⟩) depth name options = some (.error e) →
        describeFunction? (Package.provider ⟨merged⟩) depth name options = some (.error e) := by
  obtain ⟨cycles, duplicates⟩ := options
  have hfind : findFunction base name duplicates = findFunction merged name duplicates :=
    findFunction_congr _ (functionsNamed_of_interleaved h hfunctions).symm
  have hlinks := linksAgree_of_interleaved h htypes
  -- Both parts at once: every outcome but an error of the excepted class.
  have houtcome : ∀ r, (∀ e, r = .error e → e.kind ≠ .typeResolution) →
      describeFunction? (Package.provider ⟨base⟩) depth name ⟨cycles, duplicates⟩ = some r →
        describeFunction? (Package.provider ⟨merged⟩) depth name ⟨cycles, duplicates⟩ =
          some r := by
    intro r hr hbase
    cases hf : findFunction base name duplicates with
    | error e =>
      rw [describeFunction?_of_not_found hf] at hbase
      rwa [describeFunction?_of_not_found (hfind ▸ hf)]
    | ok f =>
      rw [describeFunction?_of_found hf] at hbase
      rw [describeFunction?_of_found (hfind ▸ hf)]
      exact Expansion.refines_function_of_linksAgree hlinks (fun _ _ hE => hE) depth f r hbase hr
  refine ⟨fun details => houtcome (.ok details) (by simp), fun e he => houtcome (.error e) ?_⟩
  rintro _ ⟨rfl⟩
  exact he

/-- `type Box[T any] struct { Item T; Next *Box[T] }` and, in the second unit,
    `func F[T any](b Box[T], n rune)`. -/
def boxUnits : List SourceUnit :=
  [{ path := "box.go", decls := [
      .type { name := "Box", typeParams := ["T"], type := .struct [
        { names := ["Item"], type := .named "T" [] },
        { names := ["Next"], type := .pointer (.named "Box" [.named "T" []]) }] }] },
    { path := "f.go", decls := [
      .func { name := "F", typeParams := ["T"], params := [
        { names := ["b"], type := .named "Box" [.named "T" []] },
        { names := ["n"], type := .named "rune" [] }] }] }]

/-- `type T struct { A int }` and `func G(t T)`. -/
def letterUnit : SourceUnit :=
  { path := "letter.go", decls := [
      .type { name := "T", type := .struct [{ names := ["A"], type := .named "int" [] }] },
      .func { name := "G", params := [{ names := ["t"], type := .named "T" [] }] }] }

/-- What `F` is described as. -/
def boxDetails : FunctionDetails :=
  { name := "F"
    description := ""
    parameters := {
      type := .object
      properties := [
        ("b", {
          type := .object
          properties := [("Item", .null),
            ("Next", Definition.null.withDescription "recursive reference to Box[T]")]
          required := ["Item", "Next"] }),
        ("n", { type := .integer })]
      required := ["b", "n"] } }

/-- A type named like the type parameters, declared in between, is not taken for them. -/
theorem describeFunction?_of_interleaved_letter :
    Interleaved boxUnits [letterUnit] (boxUnits.take 1 ++ letterUnit :: boxUnits.drop 1) ∧
      (∀ unit ∈ [letterUnit], ∀ f ∈ unit.functions, f.name ≠ "F") ∧
      (∀ unit ∈ [letterUnit], ∀ d ∈ unit.types,
        predeclared? d.name = none ∧ d.name ∉ (Package.mk boxUnits).typeNames) ∧
      describeFunction? (Package.provider ⟨boxUnits⟩) 3 "F" {} = some (.ok boxDetails) ∧
      describeFunction? (Package.provider ⟨boxUnits.take 1 ++ letterUnit :: boxUnits.drop 1⟩) 3 "F"
        {} = some (.ok boxDetails) := by
  have hunits : Interleaved boxUnits [letterUnit]
      (boxUnits.take 1 ++ letterUnit :: boxUnits.drop 1) := .base (.added (.base .nil))
  have hfunctions : ∀ unit ∈ [letterUnit], ∀ f ∈ unit.functions, f.name ≠ "F" := by decide
  have htypes : ∀ unit ∈ [letterUnit], ∀ d ∈ unit.types,
      predeclared? d.name = none ∧ d.name ∉ (Package.mk boxUnits).typeNames := by decide
  have hbox : describeFunction? (Package.provider ⟨boxUnits⟩) 3 "F" {} = some (.ok boxDetails) := by
    with_unfolding_all rfl
  exact ⟨hunits, hfunctions, htypes, hbox,
    (describeFunction?_of_interleaved hunits hfunctions htypes 3 {}).1 boxDetails hbox⟩

end Further

/-! ## The order of units -/

/-- The same outcome, but for the order of the declarations that an ambiguous name reports. -/
inductive SameOutcome : (r r' : Option (Except SchemaError FunctionDetails)) → Prop
  | same (r : Option (Except SchemaError FunctionDetails)) : SameOutcome r r
  | ambiguous (name : String) {locations locations' : List (String × Nat)}
      (h : locations.Perm locations') :
      SameOutcome (some (.error (.ambiguousFunction name locations)))
        (some (.error (.ambiguousFunction name locations')))

section Order

variable {units units' : List SourceUnit} {name : String}

/-- A function is described alike in any order of units without two types of one name. -/
theorem run_function_of_perm (h : units.Perm units') (hn : (Package.mk units).typeNames.Nodup)
    (guard : Option CyclePolicy) (depth : Nat) (f : FuncDecl) :
    ExceptT.run (Expansion.function (Package.provider ⟨units⟩) guard depth f) =
      ExceptT.run (Expansion.function (Package.provider ⟨units'⟩) guard depth f) := by
  have hdecl := typeDecl?_of_perm h hn
  have hlinks : Package.LinksAgree (fun _ => True) ⟨units⟩ ⟨units'⟩ :=
    Package.linksAgree_of_typeDecl? fun name => .inl (hdecl name)
  have hlinks' : Package.LinksAgree (fun _ => True) ⟨units'⟩ ⟨units⟩ :=
    Package.linksAgree_of_typeDecl? fun name => .inl (hdecl name).symm
  exact Expansion.run_eq_of_refines
    (Expansion.refines_function_of_linksAgree hlinks (fun _ _ _ => trivial) depth f)
    (Expansion.refines_function_of_linksAgree hlinks' (fun _ _ _ => trivial) depth f)

/-- A lookup with one outcome in both orders is followed by one description. -/
theorem describeFunction?_eq_of_perm (h : units.Perm units')
    (hn : (Package.mk units).typeNames.Nodup) {duplicates : DuplicatePolicy}
    (hfind : findFunction units name duplicates = findFunction units' name duplicates)
    (depth : Nat) (cycles : CyclePolicy) :
    describeFunction? (Package.provider ⟨units⟩) depth name ⟨cycles, duplicates⟩ =
      describeFunction? (Package.provider ⟨units'⟩) depth name ⟨cycles, duplicates⟩ := by
  cases hf : findFunction units name duplicates with
  | error e =>
    rw [describeFunction?_of_not_found hf, describeFunction?_of_not_found (hfind ▸ hf)]
  | ok f =>
    rw [describeFunction?_of_found hf, describeFunction?_of_found (hfind ▸ hf)]
    exact run_function_of_perm h hn _ depth f

theorem findFunction_of_perm (h : units.Perm units') (hone : (functionsNamed units name).length ≤ 1)
    (policy : DuplicatePolicy) : findFunction units name policy = findFunction units' name policy :=
  findFunction_congr policy (eq_of_perm_of_length_le_one (functionsNamed_perm h name) hone).symm

/-- Where several functions have the name, the lookup that wants one of them reports them all. -/
theorem findFunction_ambiguous (hmany : ¬ (functionsNamed units name).length ≤ 1) :
    findFunction units name .error = .error (.ambiguousFunction name
      ((functionsNamed units name).map fun (path, f) => (path, f.line))) := by
  unfold findFunction
  match hf : functionsNamed units name with
  | [] => simp [hf] at hmany
  | [_] => simp [hf] at hmany
  | _ :: _ :: _ => rfl

/-- The first function of a name is the only one, where that is wanted. -/
theorem findFunction_first {f : FuncDecl} (h : findFunction units name .error = .ok f) :
    findFunction units name .first = .ok f := by
  unfold findFunction at h ⊢
  match hf : functionsNamed units name with
  | [] => simp [hf] at h
  | [_] => simpa [hf] using h
  | _ :: _ :: _ => simp [hf] at h

/-- The order of the units matters through duplicates only.

    Where no type name is declared twice, every order of the units gives the same outcome when the
    function must be the only one of its name, and when it is. And a function that is described when
    it must be the only one is described so when it must be the first, whatever the units are. -/
theorem sameOutcome_of_perm :
    (∀ units units' : List SourceUnit, units.Perm units' → (Package.mk units).typeNames.Nodup →
      ∀ depth name cycles,
        SameOutcome (describeFunction? (Package.provider ⟨units⟩) depth name ⟨cycles, .error⟩)
          (describeFunction? (Package.provider ⟨units'⟩) depth name ⟨cycles, .error⟩) ∧
        ((functionsNamed units name).length ≤ 1 →
          describeFunction? (Package.provider ⟨units⟩) depth name ⟨cycles, .first⟩ =
            describeFunction? (Package.provider ⟨units'⟩) depth name ⟨cycles, .first⟩)) ∧
    ∀ (units : List SourceUnit) depth name cycles details,
      describeFunction? (Package.provider ⟨units⟩) depth name ⟨cycles, .error⟩ =
          some (.ok details) →
        describeFunction? (Package.provider ⟨units⟩) depth name ⟨cycles, .first⟩ =
          some (.ok details) := by
  constructor
  · intro units units' h hn depth name cycles
    refine ⟨?_, fun hone =>
      describeFunction?_eq_of_perm h hn (findFunction_of_perm h hone .first) depth cycles⟩
    by_cases hone : (functionsNamed units name).length ≤ 1
    · rw [describeFunction?_eq_of_perm h hn (findFunction_of_perm h hone .error) depth cycles]
      exact .same _
    · have hperm := functionsNamed_perm h name
      have hmany : ¬ (functionsNamed units' name).length ≤ 1 := hperm.length_eq ▸ hone
      rw [describeFunction?_of_not_found (findFunction_ambiguous hone),
        describeFunction?_of_not_found (findFunction_ambiguous hmany)]
      exact .ambiguous name (hperm.map _)
  · intro units depth name cycles details h
    cases hf : findFunction units name .error with
    | error e =>
      rw [describeFunction?_of_not_found hf] at h
      simp at h
    | ok f =>
      rw [describeFunction?_of_found hf] at h
      rwa [describeFunction?_of_found (findFunction_first hf)]

/-- `type ID Level` and `func Run(x ID)`, with `func Load(id ID)` behind it. -/
def loadUnit : SourceUnit :=
  { path := "a.go", decls := [
      .type { name := "ID", type := .named "Level" [] },
      .func {
        name := "Run"
        params := [{ names := ["x"], type := .named "ID" [] }]
        line := 5 },
      .func {
        name := "Load"
        params := [{ names := ["id"], type := .named "ID" [] }]
        line := 7 }] }

/-- `type Level int` and `func Run(y Level)`. -/
def levelUnit : SourceUnit :=
  { path := "b.go", decls := [
      .type { name := "Level", type := .named "int" [] },
      .func {
        name := "Run"
        params := [{ names := ["y"], type := .named "Level" [] }]
        line := 3 }] }

/-- Two functions `Run` are reported in the order of the units; the only function `Load` is
    described alike. -/
theorem sameOutcome_of_perm_run :
    [loadUnit, levelUnit].Perm [levelUnit, loadUnit] ∧
      (Package.mk [loadUnit, levelUnit]).typeNames.Nodup ∧
      describeFunction? (Package.provider ⟨[loadUnit, levelUnit]⟩) 3 "Run" ⟨.null, .error⟩ =
        some (.error (.ambiguousFunction "Run" [("a.go", 5), ("b.go", 3)])) ∧
      SameOutcome
        (describeFunction? (Package.provider ⟨[loadUnit, levelUnit]⟩) 3 "Run" ⟨.null, .error⟩)
        (describeFunction? (Package.provider ⟨[levelUnit, loadUnit]⟩) 3 "Run" ⟨.null, .error⟩) ∧
      (functionsNamed [loadUnit, levelUnit] "Load").length ≤ 1 ∧
      describeFunction? (Package.provider ⟨[loadUnit, levelUnit]⟩) 3 "Load" ⟨.null, .first⟩ =
        describeFunction? (Package.provider ⟨[levelUnit, loadUnit]⟩) 3 "Load" ⟨.null, .first⟩ ∧
      describeFunction? (Package.provider ⟨[levelUnit, loadUnit]⟩) 3 "Load" ⟨.null, .first⟩ =
        some (.ok ⟨"Load", "", { type := .integer }⟩) := by
  have hperm : [loadUnit, levelUnit].Perm [levelUnit, loadUnit] := List.Perm.swap _ _ _
  have hn : (Package.mk [loadUnit, levelUnit]).typeNames.Nodup := by decide
  have hrun : describeFunction? (Package.provider ⟨[loadUnit, levelUnit]⟩) 3 "Run"
      ⟨.null, .error⟩ = some (.error (.ambiguousFunction "Run" [("a.go", 5), ("b.go", 3)])) := by
    with_unfolding_all rfl
  have hload : describeFunction? (Package.provider ⟨[levelUnit, loadUnit]⟩) 3 "Load"
      ⟨.null, .error⟩ = some (.ok ⟨"Load", "", { type := .integer }⟩) := by with_unfolding_all rfl
  have hone : (functionsNamed [loadUnit, levelUnit] "Load").length ≤ 1 := by decide
  obtain ⟨horder, hfirst⟩ := sameOutcome_of_perm
  exact ⟨hperm, hn, hrun, (horder _ _ hperm hn 3 "Run" .null).1, hone,
    (horder _ _ hperm hn 3 "Load" .null).2 hone, hfirst _ 3 "Load" .null _ hload⟩

end Order

end CallSchema
