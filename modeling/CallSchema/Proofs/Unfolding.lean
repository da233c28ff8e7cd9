import CallSchema.Proofs.Paths
import CallSchema.Proofs.Unguarded
import Mathlib.Data.Set.Card
import Mathlib.Data.Set.Finite.Lattice

/-!
How many types an expansion holds at once.

`Reaches p f o`: unfolding the parameters of `f`, with nothing to cut it short, comes to `o`. The
texts of the named types reached so (`reachedTexts`) bound the expansion under the guard:

1. `exists_describedAs_of_finite`: if they are finitely many, the function has an end.
2. `Held.length_le`: the types that are being expanded at one time are no more than they are, since
   all of them are reached and no two of them have one text.
3. `finite_reachedTexts`: where no declaration has parameters they are finitely many, since all that
   is reached stands somewhere in the parameters or in the declarations.
-/

namespace CallSchema

namespace TypeExpr

/-- The expression is another one or stands in it. -/
inductive Within (c : TypeExpr) : TypeExpr → Prop
  | self : Within c c
  | inner {e b : TypeExpr} (h : b ∈ e.children) (hb : Within c b) : Within c e

theorem Within.child {c b e : TypeExpr} (h : Within c e) (hb : b ∈ c.children) : Within b e := by
  induction h with
  | self => exact .inner hb .self
  | inner hc _ ih => exact .inner hc ih

/-- Finitely many expressions stand in one. -/
theorem finite_within (e : TypeExpr) : {c | Within c e}.Finite := by
  induction e using induct with
  | h e ih =>
    have hchildren : {b | b ∈ e.children}.Finite := e.children.finite_toSet
    have hbelow : (⋃ b ∈ {b | b ∈ e.children}, {c | Within c b}).Finite := hchildren.biUnion ih
    refine ((Set.finite_singleton e).union hbelow).subset fun c hc => ?_
    cases hc with
    | self => exact .inl rfl
    | inner hb hc => exact .inr (Set.mem_biUnion hb hc)

end TypeExpr

namespace Package

variable {p : Package}

/-- No declaration has type parameters. -/
def NonGeneric (p : Package) : Prop := ∀ d ∈ p.types, d.typeParams = []

instance : Decidable p.NonGeneric :=
  inferInstanceAs (Decidable (∀ d ∈ p.types, d.typeParams = []))

theorem NonGeneric.instantiate (hp : p.NonGeneric) {d : TypeDecl} (hd : d ∈ p.types)
    (scope : List String) (args : List TypeExpr) : instantiate d scope args = d.type := by
  rw [Package.instantiate, hp d hd, TypeExpr.substitute_nil]

theorem mem_children_of_follow (hp : p.NonGeneric) {fresh scope : List String}
    {e part : TypeExpr} {type : ResolvedType} (h : p.follow fresh scope e = .ok type)
    (hpart : part ∈ type.parts) :
    part ∈ e.children ∨ ∃ d ∈ p.types, part ∈ d.type.children := by
  fun_induction follow p fresh scope e with
  | case1 fresh scope e result hl => exact .inl (link_ends_parts (h ▸ hl) hpart)
  | case2 fresh scope e name body hl hm ih =>
    obtain ⟨args, d, -, -, hd, rfl⟩ := link_follows hl
    have hmem : d ∈ p.types := List.mem_of_find?_eq_some hd
    rw [hp.instantiate hmem] at ih h
    rcases ih h with hchild | hdecl
    · exact .inr ⟨d, hmem, hchild⟩
    · exact .inr hdecl
  | case3 fresh scope e name body hl hm =>
    cases h
    exact absurd hpart List.not_mem_nil

end Package

namespace Expansion

variable {p : Package} {policy : CyclePolicy} {f : FuncDecl} {path : List Occurrence}
  {o : Occurrence}

/-- The unfolding of the parameters of the function comes to the expression. -/
inductive Reaches (p : Package) (f : FuncDecl) : Occurrence → Prop
  | parameter {q : FieldDecl} (hq : q ∈ f.params) : Reaches p f ⟨f.typeParams, q.type⟩
  | part {o : Occurrence} {type : ResolvedType} {e : TypeExpr} (above : Reaches p f o)
      (resolved : p.resolve o.scope o.expr = .ok type) (hpart : e ∈ type.parts) :
      Reaches p f ⟨innerScope o.scope o.expr, e⟩

/-- The texts of the named types that the unfolding comes to. -/
def reachedTexts (p : Package) (f : FuncDecl) : Set String :=
  {text | ∃ o, Reaches p f o ∧ identity? o.expr = some text}

/-- What the guarded expansion comes to is reached, and so are the types on the way. -/
theorem reaches_of_comes (h : Comes p.provider policy f path o) :
    Reaches p f o ∧ ∀ m ∈ path, Reaches p f m := by
  induction h with
  | parameter _ started =>
    obtain ⟨q, hq, rfl⟩ := started.exists_mem
    exact ⟨.parameter hq, nofun⟩
  | @part _ path o type e _ _ resolved started ih =>
    obtain ⟨ho, hpath⟩ := ih
    refine ⟨.part ho resolved started.mem_parts, fun m hm => ?_⟩
    rcases mem_extended.mp hm with ⟨rfl, -⟩ | hm
    · exact ho
    · exact hpath m hm

/-! ## Coming to an end -/

theorem bounded_reached {texts : List String} (h : ∀ text ∈ reachedTexts p f, text ∈ texts) :
    Bounded p texts fun scope e => Reaches p f ⟨scope, e⟩ where
  part he hr hp := .part he hr hp
  text he _ _ hid := h _ ⟨_, he, hid⟩

/-- If finitely many texts are reached, every function has a description or an error. -/
theorem exists_describedAs_of_finite (h : (reachedTexts p f).Finite) (policy : CyclePolicy) :
    ∃ r, DescribedAs p.provider (some policy) f r := by
  have htexts : ∀ text ∈ reachedTexts p f, text ∈ h.toFinset.toList := by simp
  exact exists_describedAs (bounded_reached htexts) fun q hq => .parameter hq

/-! ## The types held at one time -/

/-- At some time, the expansion of the function holds the types of this path: it has come somewhere
    by way of them, or has just entered the innermost of them. -/
inductive Held (provider : Provider) (policy : CyclePolicy) (f : FuncDecl) :
    List Occurrence → Prop
  | there {path : List Occurrence} {o : Occurrence} (h : Comes provider policy f path o) :
      Held provider policy f path
  | inside {path : List Occurrence} {o : Occurrence} (h : Comes provider policy f path o)
      (passed : guarded (some policy) (texts path) o.expr = none) :
      Held provider policy f (extended path o)

theorem Held.nodup_texts {provider : Provider} (h : Held provider policy f path) :
    (texts path).Nodup := by
  cases h with
  | there h => exact Expansion.nodup_texts h
  | inside h passed => exact nodup_texts_extended (Expansion.nodup_texts h) passed

theorem text_mem_reachedTexts (hn : o.IsNamed) (ho : Reaches p f o) :
    o.expr.display ∈ reachedTexts p f :=
  ⟨o, ho, identity?_of_isNamed hn⟩

theorem Held.texts_subset (h : Held p.provider policy f path) :
    ∀ text ∈ texts path, text ∈ reachedTexts p f := by
  intro text ht
  obtain ⟨m, hm, rfl⟩ := List.mem_map.mp ht
  cases h with
  | there h =>
    exact text_mem_reachedTexts (isNamed_of_mem_path h m hm) ((reaches_of_comes h).2 m hm)
  | inside h _ =>
    rcases mem_extended.mp hm with ⟨rfl, hn⟩ | hm
    · exact text_mem_reachedTexts hn (reaches_of_comes h).1
    · exact text_mem_reachedTexts (isNamed_of_mem_path h m hm) ((reaches_of_comes h).2 m hm)

/-- No more types are held at one time than there are texts. -/
theorem Held.length_le (hfin : (reachedTexts p f).Finite) (h : Held p.provider policy f path) :
    path.length ≤ (reachedTexts p f).ncard := by
  have hsub : ((texts path).toFinset : Set String) ⊆ reachedTexts p f := fun text ht =>
    h.texts_subset text (by simpa using ht)
  calc path.length = (texts path).length := (List.length_map _).symm
    _ = (texts path).toFinset.card := (List.toFinset_card_of_nodup h.nodup_texts).symm
    _ = ((texts path).toFinset : Set String).ncard := (Set.ncard_coe_finset _).symm
    _ ≤ (reachedTexts p f).ncard := Set.ncard_le_ncard hsub hfin

/-! ## Without generic declarations -/

/-- All that is reached stands in a parameter or in a declaration. -/
theorem within_of_reaches (hp : p.NonGeneric) (h : Reaches p f o) :
    ∃ e ∈ f.params.map (·.type) ++ p.types.map (·.type), o.expr.Within e := by
  induction h with
  | @parameter q hq =>
    exact ⟨q.type, List.mem_append_left _ (List.mem_map_of_mem hq), .self⟩
  | @part o type e _ resolved hpart ih =>
    -- The part stands in the expression itself, or in a declaration, at its top.
    rcases Package.mem_children_of_follow hp resolved hpart with hchild | ⟨d, hd, hchild⟩
    · obtain ⟨root, hroot, hw⟩ := ih
      exact ⟨root, hroot, hw.child hchild⟩
    · exact ⟨d.type, List.mem_append_right _ (List.mem_map_of_mem hd), .inner hchild .self⟩

theorem finite_reachedTexts (hp : p.NonGeneric) (f : FuncDecl) : (reachedTexts p f).Finite := by
  let roots := f.params.map (·.type) ++ p.types.map (·.type)
  have hroots : {e | e ∈ roots}.Finite := roots.finite_toSet
  have hfin : (⋃ e ∈ {e | e ∈ roots}, {c | TypeExpr.Within c e}).Finite :=
    hroots.biUnion fun e _ => TypeExpr.finite_within e
  refine (hfin.image TypeExpr.display).subset ?_
  rintro text ⟨o, ho, hid⟩
  obtain ⟨e, he, hw⟩ := within_of_reaches hp ho
  have htext : o.expr.display = text :=
    Option.some.inj ((identity?_of_isNamed (by simp [Occurrence.IsNamed, hid])).symm.trans hid)
  exact ⟨o.expr, Set.mem_biUnion he hw, htext⟩

/-- If the named types that a function unfolds to have finitely many texts, it has a description or
    an error under either policy, and its expansion never holds more types than there are texts.
    Without generic declarations there are finitely many. -/
theorem describedAs_and_held_of_finite (p : Package) (f : FuncDecl) :
    ((reachedTexts p f).Finite → ∀ policy,
      (∃ r, DescribedAs p.provider (some policy) f r) ∧
        ∀ path, Held p.provider policy f path → path.length ≤ (reachedTexts p f).ncard) ∧
    (p.NonGeneric → (reachedTexts p f).Finite) :=
  ⟨fun h policy => ⟨exists_describedAs_of_finite h policy, fun _ hp => hp.length_le h⟩,
    fun hp => finite_reachedTexts hp f⟩

/-- `type A[T any] struct { Item T; Next *B[T] }`, `type B[T any] struct { Others []A[T] }`. -/
def ringPackage : Package :=
  { units := [{ path := "ring.go", decls := [
      .type { name := "A", typeParams := ["T"], type := .struct [
        { names := ["Item"], type := .named "T" [] },
        { names := ["Next"], type := .pointer (.named "B" [.named "T" []]) }] },
      .type { name := "B", typeParams := ["T"], type := .struct [
        { names := ["Others"], type := .slice (.named "A" [.named "T" []]) }] }] }] }

/-- `func F(a A[int])`. -/
def ringFunction : FuncDecl :=
  { name := "F", params := [{ names := ["a"], type := .named "A" [.named "int" []] }] }

/-- What the ring unfolds to: the two types, each by way of the other, and the item. -/
def ringTypes : List TypeExpr :=
  [.named "A" [.named "int" []], .named "int" [], .pointer (.named "B" [.named "int" []]),
    .named "B" [.named "int" []], .slice (.named "A" [.named "int" []])]

/-- What each of the types is underneath. -/
def ringResolved : List ResolvedType :=
  [.struct [{ names := ["Item"], type := .named "int" [] },
      { names := ["Next"], type := .pointer (.named "B" [.named "int" []]) }],
    .basic .int, .pointer (.named "B" [.named "int" []]),
    .struct [{ names := ["Others"], type := .slice (.named "A" [.named "int" []]) }],
    .sequence (.named "A" [.named "int" []])]

theorem reaches_ring (h : Reaches ringPackage ringFunction o) :
    o.scope = [] ∧ o.expr ∈ ringTypes := by
  induction h with
  | parameter hq =>
    obtain rfl := List.mem_singleton.mp hq
    exact ⟨rfl, List.mem_cons_self⟩
  | @part o type e _ resolved hpart ih =>
    obtain ⟨scope, expr⟩ := o
    obtain ⟨rfl, he⟩ : scope = [] ∧ expr ∈ ringTypes := ih
    have hall : ringTypes.map (ringPackage.resolve []) = ringResolved.map .ok := by
      with_unfolding_all rfl
    have hparts : ∀ type ∈ ringResolved, ∀ e ∈ type.parts, e ∈ ringTypes := by
      simp [ringResolved, ResolvedType.parts, namedFields, fieldNames, ringTypes]
    have htype : ringPackage.resolve [] expr ∈ ringResolved.map .ok :=
      hall ▸ List.mem_map_of_mem he
    obtain ⟨type', hmem, hok⟩ := List.mem_map.mp htype
    obtain rfl : type' = type := Except.ok.inj (hok.trans resolved)
    exact ⟨Package.innerScope_nil expr, hparts type' hmem e hpart⟩

theorem describedAs_and_held_of_finite_ring :
    (reachedTexts ringPackage ringFunction).Finite ∧
      (∃ r, DescribedAs ringPackage.provider (some .error) ringFunction r) ∧
      (∀ path, Held ringPackage.provider .error ringFunction path → path.length ≤ 3) ∧
      treePackage.NonGeneric ∧ (reachedTexts treePackage treeFunction).Finite := by
  have hsub : reachedTexts ringPackage ringFunction ⊆
      (["A[int]", "int", "B[int]"].toFinset : Set String) := by
    rintro text ⟨o, ho, hid⟩
    obtain ⟨-, he⟩ := reaches_ring ho
    have htexts : ∀ e ∈ ringTypes, ∀ identity, identity? e = some identity →
        identity ∈ ["A[int]", "int", "B[int]"] := by
      simp [ringTypes, identity?, TypeExpr.display, TypeExpr.displayList]
    simpa using htexts _ he text hid
  have hfin : (reachedTexts ringPackage ringFunction).Finite := (Finset.finite_toSet _).subset hsub
  have hcard : (reachedTexts ringPackage ringFunction).ncard ≤ 3 := by
    calc (reachedTexts ringPackage ringFunction).ncard
        ≤ (["A[int]", "int", "B[int]"].toFinset : Set String).ncard := Set.ncard_le_ncard hsub
      _ = ["A[int]", "int", "B[int]"].toFinset.card := Set.ncard_coe_finset _
      _ = 3 := rfl
  obtain ⟨hends, hheld⟩ := (describedAs_and_held_of_finite ringPackage ringFunction).1 hfin .error
  have htree : treePackage.NonGeneric := by decide
  exact ⟨hfin, hends, fun path hp => (hheld path hp).trans hcard, htree,
    (describedAs_and_held_of_finite treePackage treeFunction).2 htree⟩

end Expansion

end CallSchema
