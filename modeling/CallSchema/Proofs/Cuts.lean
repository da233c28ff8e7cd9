import CallSchema.Proofs.Paths
import CallSchema.Proofs.Reading
import CallSchema.Proofs.Unguarded
import Mathlib.Data.List.Nodup

/-!
When the guard against recursive types is right.

A cut is right if the type is really being expanded: a type of the path has the name of the one that
is cut, and the same type arguments, where a type parameter of the function is no type
(`Occurrence.meaning`). The guard goes by texts.

1. `cutsRecur_iff_separated_display`: the types of a path have distinct texts, so a cut has one type
   to answer for it.
2. `separated_of_plain`: without type arguments, a text stands for one type on any path.
3. `cutsRecur_iff`: all cuts are right exactly if no type meets another one on its path that has its
   text. If all names are words, that is: another one that differs from it in nothing but the
   insides of structs and in type parameters for types.
4. `cutsRecur_fails_on_structs`, `cutsRecur_fails_on_typeParams`: both differences occur, the first
   in a type that is not recursive at all.
-/

namespace CallSchema.Expansion

open TypeExpr (WellNamed)

variable {p : Package} {provider : Provider} {policy : CyclePolicy} {f : FuncDecl}
  {path : List Occurrence} {o : Occurrence}

/-- The type is being expanded on the path. -/
def Recurs (path : List Occurrence) (o : Occurrence) : Prop := ∃ m ∈ path, m.meaning = o.meaning

/-- Every type that the description of the function cuts is being expanded. -/
def CutsRecur (provider : Provider) (policy : CyclePolicy) (f : FuncDecl) : Prop :=
  ∀ path o, Cut provider policy f path o → Recurs path o

/-- The view tells every named type from the other ones on its path. -/
def Separated {α : Type} (view : TypeExpr → α) (provider : Provider) (policy : CyclePolicy)
    (f : FuncDecl) : Prop :=
  ∀ path o, Comes provider policy f path o → o.IsNamed →
    ∀ m ∈ path, view m.expr = view o.expr → m.meaning = o.meaning

/-! ## What holds on a path -/

/-- What holds throughout a package and the parameters of a function holds throughout whatever the
    description of the function comes to. -/
theorem all_of_comes {P : TypeExpr → Prop} (hP : TypeExpr.Stable P) (hp : p.AllTypes P)
    (hf : ∀ q ∈ f.params, q.type.All P) (h : Comes p.provider policy f path o) :
    o.expr.All P ∧ ∀ m ∈ path, m.expr.All P :=
  inherited_of_comes (Package.inherited_all hP hp) hf h

/-! ## Right cuts -/

theorem display_meaning (o : Occurrence) : o.meaning.display = o.expr.display := by
  rw [← TypeExpr.display_outline, Occurrence.meaning, TypeExpr.outline_substitute_opaque,
    TypeExpr.display_outline]

/-- Cuts are right exactly if the texts tell the types of every path apart. -/
theorem cutsRecur_iff_separated_display :
    CutsRecur provider policy f ↔ Separated TypeExpr.display provider policy f := by
  constructor
  · intro h path o hc hn m hm ht
    obtain ⟨m', hm', hmeaning⟩ := h path o (cut_iff.mpr ⟨hc, hn, m, hm, ht⟩)
    -- The type that is expanded has the text of `o`, so it is the one there is.
    have htext : m'.expr.display = m.expr.display := by
      rw [ht, ← display_meaning m', hmeaning, display_meaning]
    obtain rfl : m' = m := List.inj_on_of_nodup_map (nodup_texts hc) hm' hm htext
    exact hmeaning
  · intro h path o hcut
    obtain ⟨hc, hn, m, hm, ht⟩ := cut_iff.mp hcut
    exact ⟨m, hm, h path o hc hn m hm ht⟩

/-- Outlines tell at least as many types apart as texts. -/
theorem Separated.outline (h : Separated TypeExpr.display provider policy f) :
    Separated TypeExpr.outline provider policy f := by
  intro path o hc hn m hm ho
  refine h path o hc hn m hm ?_
  rw [← TypeExpr.display_outline m.expr, ho, TypeExpr.display_outline]

/-! ## Plain packages -/

/-- Below a named type no type parameter is in scope, and none is a type of a path. -/
theorem scope_of_comes (h : Comes p.provider policy f path o) :
    (path ≠ [] → o.scope = []) ∧
      ∀ m ∈ path, ∀ name, m.expr = .named name [] → name ∉ m.scope := by
  induction h with
  | parameter _ _ => exact ⟨fun h => absurd rfl h, nofun⟩
  | @part _ path o type e _ _ resolved started ih =>
    obtain ⟨hscope, hpath⟩ := ih
    constructor
    · intro hne
      unfold innerScope
      split
      · rfl
      · rename_i hn
        rw [extended, if_neg hn] at hne
        exact hscope hne
    · intro m hm name hname hs
      rcases mem_extended.mp hm with ⟨rfl, -⟩ | hm
      · have hparts : type.parts = [] :=
          Package.parts_of_resolve_typeParam hs (hname ▸ resolved)
        exact absurd started.mem_parts (by rw [hparts]; exact List.not_mem_nil)
      · exact hpath m hm name hname hs

/-- Without type arguments, texts tell all types apart. -/
theorem separated_of_plain (hp : p.Plain) (hf : ∀ q ∈ f.params, q.type.Plain) :
    Separated TypeExpr.display p.provider policy f := by
  intro path o hc hn m hm ht
  obtain ⟨ho, hpath⟩ := all_of_comes TypeExpr.stable_arguments_eq_nil hp hf hc
  obtain ⟨hscope, hfresh⟩ := scope_of_comes hc
  have hbare : ∀ q : Occurrence, q.IsNamed → q.expr.Plain → q.expr = .named q.expr.display [] := by
    intro q hq hplain
    obtain ⟨name, args, he⟩ := exists_eq_named (identity?_of_isNamed hq)
    rw [he] at hplain ⊢
    obtain rfl := hplain.eq_named
    rfl
  have hm' := hbare m (isNamed_of_mem_path hc m hm) (hpath m hm)
  have ho' := hbare o hn ho
  have hnotin := hfresh m hm _ hm'
  rw [Occurrence.meaning, Occurrence.meaning, hscope (List.ne_nil_of_mem hm),
    TypeExpr.substitute_nil, hm', TypeExpr.substitute_bare, TypeExpr.substituteName,
    List.idxOf?_eq_none_iff.mpr hnotin, ho', ht]

/-! ## The condition -/

/-- All cuts are right exactly if no path meets two types of one text. Where names are words, these
    are the types that differ in nothing but the insides of structs and in type parameters for
    types. -/
theorem cutsRecur_iff (p : Package) (policy : CyclePolicy) (f : FuncDecl) :
    (CutsRecur p.provider policy f ↔ Separated TypeExpr.display p.provider policy f) ∧
    ((∀ d ∈ p.types, d.type.WellNamed) → (∀ q ∈ f.params, q.type.WellNamed) →
      (CutsRecur p.provider policy f ↔ Separated TypeExpr.outline p.provider policy f)) := by
  refine ⟨cutsRecur_iff_separated_display, fun hp hf => ?_⟩
  rw [cutsRecur_iff_separated_display]
  refine ⟨Separated.outline, fun h path o hc hn m hm ht => ?_⟩
  obtain ⟨ho, hpath⟩ := all_of_comes TypeExpr.stable_wellNamed hp hf hc
  exact h path o hc hn m hm ((TypeExpr.display_eq_iff (hpath m hm) ho).mp ht)

theorem cutsRecur_iff_tree :
    (∀ d ∈ treePackage.types, d.type.WellNamed) ∧
      (∀ q ∈ treeFunction.params, q.type.WellNamed) ∧
      CutsRecur treePackage.provider .null treeFunction ∧
      Separated TypeExpr.outline treePackage.provider .null treeFunction := by
  have hp : ∀ d ∈ treePackage.types, d.type.WellNamed := by decide +kernel
  have hf : ∀ q ∈ treeFunction.params, q.type.WellNamed := by decide +kernel
  obtain ⟨htexts, houtlines⟩ := cutsRecur_iff treePackage .null treeFunction
  have hcuts : CutsRecur treePackage.provider .null treeFunction :=
    htexts.mpr (separated_of_plain (by decide +kernel) (by decide +kernel))
  exact ⟨hp, hf, hcuts, (houtlines hp hf).mp hcuts⟩

/-- `type Box[T any] struct { Item T }`. -/
def boxPackage : Package :=
  { units := [{ path := "box.go", decls := [
      .type { name := "Box", typeParams := ["T"], type := .struct [
        { names := ["Item"], type := .named "T" [] }] }] }] }

/-- `Box[struct { B int }]`. -/
def innerBox : TypeExpr := .named "Box" [.struct [{ names := ["B"], type := .named "int" [] }]]

/-- `struct { Inner Box[struct { B int }] }`. -/
def outerItem : TypeExpr := .struct [{ names := ["Inner"], type := innerBox }]

/-- `func F(b Box[struct { Inner Box[struct { B int }] }])`. -/
def boxFunction : FuncDecl :=
  { name := "F", params := [{ names := ["b"], type := .named "Box" [outerItem] }] }

/-- What the box with its unlike item comes to, with and without the guard. -/
def boxDetails : FunctionDetails :=
  let object (name : String) (d : Definition) : Definition :=
    { type := .object, properties := [(name, d)], required := [name] }
  { name := "F", description := ""
    parameters := object "Item" (object "Inner" (object "Item" (object "B" { type := .integer }))) }

/-- The box that the item of the outer box holds is cut. -/
theorem cut_innerBox (policy : CyclePolicy) :
    Cut boxPackage.provider policy boxFunction [⟨[], .named "Box" [outerItem]⟩] ⟨[], innerBox⟩ := by
  have houter : Comes boxPackage.provider policy boxFunction [] ⟨[], .named "Box" [outerItem]⟩ :=
    .parameter 0 (.head (show tagsOf _ "b" = .ok {} from rfl))
  have hbox : boxPackage.resolve [] (.named "Box" [outerItem]) =
      .ok (.struct [{ names := ["Item"], type := outerItem }]) := by with_unfolding_all rfl
  have hstruct : boxPackage.resolve [] outerItem =
      .ok (.struct [{ names := ["Inner"], type := innerBox }]) := by with_unfolding_all rfl
  have hitem : Comes boxPackage.provider policy boxFunction [⟨[], .named "Box" [outerItem]⟩]
      ⟨[], outerItem⟩ :=
    .part 0 houter rfl hbox (.struct (.head (show tagsOf _ "Item" = .ok {} from rfl)))
  have hinner : Comes boxPackage.provider policy boxFunction [⟨[], .named "Box" [outerItem]⟩]
      ⟨[], innerBox⟩ :=
    .part 0 hitem rfl hstruct (.struct (.head (show tagsOf _ "Inner" = .ok {} from rfl)))
  exact cut_iff.mpr ⟨hinner, rfl, _, List.mem_cons_self, rfl⟩

/-- The box in the box is cut although no box of its item is being expanded: without the guard the
    expansion ends, and as a recursive type it is an error. -/
theorem cutsRecur_fails_on_structs :
    ¬ CutsRecur boxPackage.provider .null boxFunction ∧
      ¬ CutsRecur boxPackage.provider .error boxFunction ∧
      DescribedAs boxPackage.provider none boxFunction (.ok boxDetails) ∧
      DescribedAs boxPackage.provider (some .error) boxFunction
        (.error (.parameter "b" (.recursiveType "Box[struct\x7b...\x7d]"))) := by
  have hne : ¬ Recurs [⟨[], .named "Box" [outerItem]⟩] ⟨[], innerBox⟩ := by
    rintro ⟨m, hm, h⟩
    obtain rfl := List.mem_singleton.mp hm
    simp [Occurrence.meaning, TypeExpr.substitute_nil, innerBox, outerItem] at h
  refine ⟨fun h => ?_, fun h => ?_, ?_, ?_⟩
  · exact hne (h _ _ (cut_innerBox .null))
  · exact hne (h _ _ (cut_innerBox .error))
  · exact ⟨5, by with_unfolding_all rfl⟩
  · exact ⟨5, by with_unfolding_all rfl⟩

/-- `type T struct { A int }`, `type Box[V any] struct { Item V; Next *Box[T] }`. -/
def shadowPackage : Package :=
  { units := [{ path := "shadow.go", decls := [
      .type { name := "T", type := .struct [{ names := ["A"], type := .named "int" [] }] },
      .type { name := "Box", typeParams := ["V"], type := .struct [
        { names := ["Item"], type := .named "V" [] },
        { names := ["Next"], type := .pointer (.named "Box" [.named "T" []]) }] }] }] }

/-- `func F[T any](b Box[T])`. -/
def shadowFunction : FuncDecl :=
  { name := "F", typeParams := ["T"]
    params := [{ names := ["b"], type := .named "Box" [.named "T" []] }] }

/-- A box of the type `T` is cut where only a box of the type parameter `T` is being expanded. -/
theorem cutsRecur_fails_on_typeParams :
    ¬ CutsRecur shadowPackage.provider .null shadowFunction := by
  have houter : Comes shadowPackage.provider .null shadowFunction []
      ⟨["T"], .named "Box" [.named "T" []]⟩ :=
    .parameter 0 (.head (show tagsOf _ "b" = .ok {} from rfl))
  have hbox : shadowPackage.resolve ["T"] (.named "Box" [.named "T" []]) =
      .ok (.struct [{ names := ["Item"], type := .other "T" },
        { names := ["Next"], type := .pointer (.named "Box" [.named "T" []]) }]) := by
    with_unfolding_all rfl
  have hitem : Ends (field (typeDefinition shadowPackage.provider (some .null) 1 ["Box[T]"] [])
      { names := ["Item"], type := .other "T" } "Item") (.ok (.null, true)) := by
    with_unfolding_all rfl
  have hnext : Comes shadowPackage.provider .null shadowFunction
      [⟨["T"], .named "Box" [.named "T" []]⟩] ⟨[], .pointer (.named "Box" [.named "T" []])⟩ :=
    .part 1 houter rfl hbox
      (.struct (.tail hitem (.head (show tagsOf _ "Next" = .ok {} from rfl))))
  have hinner : Comes shadowPackage.provider .null shadowFunction
      [⟨["T"], .named "Box" [.named "T" []]⟩] ⟨[], .named "Box" [.named "T" []]⟩ :=
    .part 0 hnext rfl (by with_unfolding_all rfl) (.pointer _)
  intro h
  obtain ⟨m, hm, hmeaning⟩ := h _ _ (cut_iff.mpr ⟨hinner, rfl, _, List.mem_cons_self, rfl⟩)
  obtain rfl := List.mem_singleton.mp hm
  have houter' : (TypeExpr.named "Box" [.named "T" []]).substitute ["T"] [] =
      .named "Box" [.other "T"] := rfl
  rw [Occurrence.meaning, Occurrence.meaning, TypeExpr.substitute_nil, houter'] at hmeaning
  simp at hmeaning

end CallSchema.Expansion
