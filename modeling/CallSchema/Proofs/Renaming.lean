import CallSchema.Proofs.Reading
import Mathlib.Data.List.Nodup

/-!
Renaming the type parameters of a function.

`FuncDecl.rename` gives a function new type parameters, in its list of them and wherever its
parameters refer to one. Where the new names are fresh, the way back is a plain map of names
(`TypeExpr.renamed`), in whatever the expansion comes to. The way there is not: an old name may
stand for a type besides.

1. `renamed_substitute`: renaming passes through substitution, if the substitution goes along with
   it at every bare name.
2. `Kept`: below a renamed function, a bare name is a type parameter or keeps its meaning. This
   passes on (`inherited_kept`).
3. `renames_resolve`: so what an expression is underneath is renamed with it.
4. `Fresh.params_eq`, `Fresh.kept`: fresh names for the type parameters of a function make all this
   true of it.
-/

namespace CallSchema

/-- What stands in place of a name when the names of the first list become those of the second. -/
def renamedName (olds news : List String) (name : String) : String :=
  match olds.idxOf? name with
  | some i => (news[i]?).getD name
  | none => name

theorem renamedName_of_notMem {olds news : List String} {name : String} (h : name ∉ olds) :
    renamedName olds news name = name := by
  rw [renamedName, List.idxOf?_eq_none_iff.mpr h]

theorem renamedName_getElem {olds news : List String} (hnodup : olds.Nodup) {i : Nat}
    (hi : i < olds.length) (hi' : i < news.length) : renamedName olds news olds[i] = news[i] := by
  have hidx : olds.idxOf? olds[i] = some i := by
    refine List.idxOf?_eq_some_iff.mpr ⟨hi, rfl, fun j hj he => ?_⟩
    exact absurd (hnodup.getElem_inj_iff.mp he) (Nat.ne_of_lt hj)
  simp [renamedName, hidx, hi']

/-- All at once, distinct names become the others. -/
theorem map_renamedName {olds news : List String} (hnodup : olds.Nodup)
    (hlength : olds.length = news.length) : olds.map (renamedName olds news) = news := by
  refine List.ext_getElem (by simpa using hlength) fun i hi hi' => ?_
  rw [List.getElem_map]
  exact renamedName_getElem hnodup _ hi'

theorem isName_renamedName {olds news : List String} {name : String}
    (h : TypeExpr.IsName name) (hnews : ∀ new ∈ news, TypeExpr.IsName new) :
    TypeExpr.IsName (renamedName olds news name) := by
  unfold renamedName
  cases olds.idxOf? name with
  | none => exact h
  | some i =>
    cases hi : news[i]? with
    | none => simpa [hi] using h
    | some new => simpa [hi] using hnews new (List.mem_of_getElem? hi)

/-- The function with other names for its type parameters. -/
def FuncDecl.rename (f : FuncDecl) (names : List String) : FuncDecl :=
  { f with
    typeParams := names
    params := f.params.map (FieldOf.mapType
      (·.substitute f.typeParams (names.map fun name => .named name []))) }

namespace TypeExpr

/-! ## Renaming throughout an expression -/

mutual

/-- The expression with its bare and its opaque names mapped. The head of an instantiation is no
    such name. -/
def renamed (τ : String → String) : TypeExpr → TypeExpr
  | .named name own =>
    if own.isEmpty then .named (τ name) [] else .named name (renamedList τ own)
  | .pointer pointee => .pointer (renamed τ pointee)
  | .slice element => .slice (renamed τ element)
  | .array element => .array (renamed τ element)
  | .struct fields => .struct (renamedFields τ fields)
  | .map key value => .map (renamed τ key) (renamed τ value)
  | .chan element => .chan (renamed τ element)
  | .qualified package name => .qualified package name
  | .interface => .interface
  | .func => .func
  | .other text => .other (τ text)
termination_by structural e => e

/-- Renaming in each of a list of type arguments. -/
def renamedList (τ : String → String) : List TypeExpr → List TypeExpr
  | [] => []
  | e :: es => renamed τ e :: renamedList τ es
termination_by structural es => es

/-- Renaming in the types of a list of fields. -/
def renamedFields (τ : String → String) : List (FieldOf TypeExpr) → List (FieldOf TypeExpr)
  | [] => []
  | f :: fs => renamedField τ f :: renamedFields τ fs
termination_by structural fs => fs

/-- Renaming in the type of a field. -/
def renamedField (τ : String → String) : FieldOf TypeExpr → FieldOf TypeExpr
  | ⟨names, type, tag, comments, variadic⟩ => ⟨names, renamed τ type, tag, comments, variadic⟩
termination_by structural f => f

end

variable {τ σ : String → String} {e : TypeExpr}

theorem renamedList_eq_map (τ : String → String) (es : List TypeExpr) :
    renamedList τ es = es.map (renamed τ) := by
  induction es with
  | nil => rfl
  | cons e es ih => simp [renamedList, ih]

theorem renamedFields_eq_map (τ : String → String) (fs : List FieldDecl) :
    renamedFields τ fs = fs.map (FieldOf.mapType (renamed τ)) := by
  induction fs with
  | nil => rfl
  | cons f fs ih =>
    obtain ⟨names, type, tag, comments, variadic⟩ := f
    simp [renamedFields, renamedField, FieldOf.mapType, ih]

theorem renamed_bare (τ : String → String) (name : String) :
    (named name []).renamed τ = .named (τ name) [] := rfl

theorem renamed_instance (τ : String → String) (name : String) {args : List TypeExpr}
    (h : args ≠ []) : (named name args).renamed τ = .named name (args.map (renamed τ)) := by
  rw [renamed, if_neg (by simpa using h), renamedList_eq_map]

/-- The expression is neither a bare name nor an opaque one. -/
structure IsCompound (e : TypeExpr) : Prop where
  ne_bare : ∀ name, e ≠ .named name []
  ne_other : ∀ text, e ≠ .other text

theorem bare_or_other_or_compound (e : TypeExpr) :
    (∃ name, e = .named name []) ∨ (∃ text, e = .other text) ∨ e.IsCompound := by
  by_cases hbare : ∃ name, e = .named name []
  · exact .inl hbare
  · by_cases hother : ∃ text, e = .other text
    · exact .inr (.inl hother)
    · exact .inr (.inr ⟨fun name he => hbare ⟨name, he⟩, fun text he => hother ⟨text, he⟩⟩)

theorem IsCompound.mapChildren (h : e.IsCompound) (change : TypeExpr → TypeExpr) :
    (e.mapChildren change).IsCompound := by
  refine ⟨mapChildren_ne_bare h.ne_bare, fun text he => ?_⟩
  cases e with
  | other own => exact h.ne_other own rfl
  | _ => cases he

/-- Renaming a compound goes on in the children. -/
theorem IsCompound.renamed_eq (h : e.IsCompound) :
    e.renamed τ = e.mapChildren (renamed τ) := by
  cases e with
  | named name args => exact renamed_instance τ name fun hnil => h.ne_bare name (hnil ▸ rfl)
  | other text => exact absurd rfl (h.ne_other text)
  | struct fields => exact congrArg struct (renamedFields_eq_map τ fields)
  | _ => rfl

/-- Renaming passes through substitution, if it does so at bare names. -/
theorem renamed_substitute {params params' : List String} {args args' : List TypeExpr}
    (h : e.All fun e => ∀ name, e = .named name [] →
      (substituteName params args name).renamed τ = substituteName params' args' (τ name)) :
    (e.substitute params args).renamed τ = (e.renamed τ).substitute params' args' := by
  induction e using induct with
  | h e ih =>
    obtain ⟨hhead, hbelow⟩ := all_iff.mp h
    rcases bare_or_other_or_compound e with ⟨name, rfl⟩ | ⟨text, rfl⟩ | he
    · exact hhead name rfl
    · rfl
    · rw [substitute_eq_mapChildren he.ne_bare, (he.mapChildren _).renamed_eq, he.renamed_eq,
        substitute_eq_mapChildren (he.mapChildren _).ne_bare, mapChildren_mapChildren,
        mapChildren_mapChildren]
      exact mapChildren_congr fun c hc => ih c hc (hbelow c hc)

theorem renamed_substituteName {params : List String} {args : List TypeExpr} {name : String}
    (h : τ name = name) :
    (substituteName params args name).renamed τ =
      substituteName params (args.map (renamed τ)) (τ name) := by
  rw [h, substituteName, substituteName]
  cases params.idxOf? name with
  | none => exact congrArg (named · []) h
  | some i =>
    cases hi : args[i]? with
    | none => simp [hi, renamed, h]
    | some a => simp [hi]

/-- The names at the head of an expression that are renamed. -/
def leafNames : TypeExpr → List String
  | .named name args => if args.isEmpty then [name] else []
  | .other text => [text]
  | _ => []

theorem mem_headNames_of_mem_leafNames {name : String} (h : name ∈ e.leafNames) :
    name ∈ e.headNames := by
  cases e with
  | named head args =>
    rw [leafNames] at h
    split at h
    · exact h
    · exact absurd h List.not_mem_nil
  | other text => exact h
  | _ => exact absurd h List.not_mem_nil

theorem renamed_renamed (τ σ : String → String) (e : TypeExpr) :
    (e.renamed τ).renamed σ = e.renamed (σ ∘ τ) := by
  induction e using induct with
  | h e ih =>
    rcases bare_or_other_or_compound e with ⟨name, rfl⟩ | ⟨text, rfl⟩ | he
    · rfl
    · rfl
    · rw [he.renamed_eq, (he.mapChildren _).renamed_eq, mapChildren_mapChildren, he.renamed_eq]
      exact mapChildren_congr ih

theorem renamed_of_fixed (h : e.All fun e => ∀ name ∈ e.leafNames, τ name = name) :
    e.renamed τ = e := by
  induction e using induct with
  | h e ih =>
    obtain ⟨hhead, hbelow⟩ := all_iff.mp h
    rcases bare_or_other_or_compound e with ⟨name, rfl⟩ | ⟨text, rfl⟩ | he
    · rw [renamed_bare, hhead name List.mem_cons_self]
    · rw [renamed, hhead text List.mem_cons_self]
    · rw [he.renamed_eq]
      exact mapChildren_of_fixed fun c hc => ih c hc (hbelow c hc)

/-- Renaming is undone where it is undone at every name. -/
theorem renamed_undone (h : e.All fun e => ∀ name ∈ e.leafNames, σ (τ name) = name) :
    (e.renamed τ).renamed σ = e :=
  (renamed_renamed τ σ e).trans (renamed_of_fixed h)

theorem children_renamed (τ : String → String) (e : TypeExpr) :
    (e.renamed τ).children = e.children.map (renamed τ) := by
  rcases bare_or_other_or_compound e with ⟨name, rfl⟩ | ⟨text, rfl⟩ | he
  · rfl
  · rfl
  · rw [he.renamed_eq, children_mapChildren]

/-- Outlines are renamed with the expressions. -/
theorem outline_renamed (τ : String → String) (e : TypeExpr) :
    (e.renamed τ).outline = e.outline.renamed τ := by
  induction e using induct with
  | h e ih =>
    cases e with
    | named name args =>
      by_cases hargs : args = []
      · subst hargs
        rfl
      · have hmap : (args.map (renamed τ)).map outline = (args.map outline).map (renamed τ) := by
          rw [List.map_map, List.map_map]
          exact List.map_congr_left ih
        rw [renamed_instance _ _ hargs, outline, outline, outlineList_eq_map, outlineList_eq_map,
          renamed_instance _ _ (by simpa using hargs), hmap]
    | pointer e | slice e | array e | chan e => simp [renamed, outline, ih e (by simp [children])]
    | map key value =>
      simp [renamed, outline, ih key (by simp [children]), ih value (by simp [children])]
    | qualified _ _ | struct _ | interface | func | other _ => rfl

/-- Words are renamed to words. -/
theorem WellNamed.renamed (hτ : ∀ name, IsName name → IsName (τ name)) (he : e.WellNamed) :
    (e.renamed τ).WellNamed := by
  induction he with
  | @intro e head _ ih =>
    refine .intro (fun name hm => ?_) fun c hc => ?_
    · cases e with
      | named own args =>
        by_cases hargs : args = []
        · subst hargs
          obtain rfl := List.mem_singleton.mp hm
          exact hτ own (head own List.mem_cons_self)
        · rw [renamed_instance _ _ hargs] at hm
          exact head name hm
      | other text =>
        obtain rfl := List.mem_singleton.mp hm
        exact hτ text (head text List.mem_cons_self)
      | qualified package own => exact head name hm
      | _ => exact absurd hm List.not_mem_nil
    · rw [children_renamed] at hc
      obtain ⟨c', hc', rfl⟩ := List.mem_map.mp hc
      exact ih c' hc'

/-- A renaming that can be undone tells as many types apart by their texts as there were. -/
theorem display_renamed_iff {e e' : TypeExpr} (hτ : ∀ name, IsName name → IsName (τ name))
    (he : e.WellNamed) (he' : e'.WellNamed)
    (hundo : e.All fun e => ∀ name ∈ e.leafNames, σ (τ name) = name)
    (hundo' : e'.All fun e => ∀ name ∈ e.leafNames, σ (τ name) = name) :
    (e.renamed τ).display = (e'.renamed τ).display ↔ e.display = e'.display := by
  rw [display_eq_iff (he.renamed hτ) (he'.renamed hτ), display_eq_iff he he', outline_renamed,
    outline_renamed]
  constructor
  · -- Texts have been read as outlines, which the other renaming takes back.
    intro h
    have hback := congrArg (TypeExpr.renamed σ) h
    rwa [← outline_renamed, ← outline_renamed, ← outline_renamed, ← outline_renamed,
      renamed_undone hundo, renamed_undone hundo'] at hback
  · intro h
    rw [h]

/-! ## Names that keep their meaning -/

/-- A bare name in a scope is one of its type parameters, or it is not renamed, and is none of them
    under their other names either. -/
def KeepsMeaning (τ : String → String) (scope : List String) (name : String) : Prop :=
  name ∈ scope ∨ τ name = name ∧ name ∉ scope.map τ

/-- Every bare name in the expression is such a name. -/
def Kept (τ : String → String) (scope : List String) (e : TypeExpr) : Prop :=
  e.All fun e => ∀ name, e = .named name [] → KeepsMeaning τ scope name

/-- Making type parameters opaque goes along with renaming them. -/
theorem Kept.renamed_substitute_nil {scope : List String} (h : Kept τ scope e) :
    (e.substitute scope []).renamed τ = (e.renamed τ).substitute (scope.map τ) [] := by
  refine renamed_substitute (h.imp fun e hkept name he => ?_)
  rcases hkept name he with hs | ⟨hname, hs⟩
  · rw [substituteName_nil_of_mem hs, substituteName_nil_of_mem (List.mem_map_of_mem hs), renamed]
  · have hnot : name ∉ scope := fun hm => hs (hname ▸ List.mem_map_of_mem hm)
    rw [substituteName_of_notMem hnot, substituteName_of_notMem (hname.symm ▸ hs), renamed_bare]

/-- What is left bare when type parameters are made opaque keeps its meaning everywhere. -/
theorem Kept.substitute_nil {scope : List String} (h : Kept τ scope e) :
    Kept τ [] (e.substitute scope []) := by
  refine All.of_substitute (fun name hkept => ?_) (fun e hne _ name he => ?_) h
  · rcases hkept name rfl with hs | ⟨hname, hs⟩
    · rw [substituteName_nil_of_mem hs]
      exact .intro nofun nofun
    · have hnot : name ∉ scope := fun hm => hs (hname ▸ List.mem_map_of_mem hm)
      rw [substituteName_of_notMem hnot]
      refine .intro (fun other he => .inr ?_) nofun
      obtain rfl : name = other := (named.inj he).1
      exact ⟨hname, List.not_mem_nil⟩
  · exact absurd he (substitute_ne_bare hne name)

theorem stable_bare (R : String → Prop) :
    Stable fun e => ∀ name, e = .named name [] → R name where
  other_of_named _ := nofun
  substitute hne _ name he := absurd he (substitute_ne_bare hne name)

end TypeExpr

/-! ## Packages -/

namespace Package

open TypeExpr (All Kept KeepsMeaning)

variable {p : Package} {τ : String → String}

/-- No declared type has a name that is renamed. -/
def Fixed (p : Package) (τ : String → String) : Prop :=
  p.AllTypes fun e => ∀ name ∈ e.leafNames, τ name = name

/-- An instance of a declaration has its arguments renamed, and nothing else. -/
theorem renamed_instantiate (hp : p.Fixed τ) {d : TypeDecl} (hd : d ∈ p.types)
    {scope : List String} {args : List TypeExpr} (hargs : ∀ a ∈ args, Kept τ scope a) :
    (instantiate d scope args).renamed τ =
      instantiate d (scope.map τ) (args.map (TypeExpr.renamed τ)) := by
  have hopaque : (args.map (TypeExpr.substitute scope [])).map (TypeExpr.renamed τ) =
      (args.map (TypeExpr.renamed τ)).map (TypeExpr.substitute (scope.map τ) []) := by
    rw [List.map_map, List.map_map]
    exact List.map_congr_left fun a ha => (hargs a ha).renamed_substitute_nil
  have hbare : d.type.All fun e => ∀ name, e = .named name [] →
      (TypeExpr.substituteName d.typeParams (args.map (TypeExpr.substitute scope []))
          name).renamed τ =
        TypeExpr.substituteName d.typeParams
          ((args.map (TypeExpr.substitute scope [])).map (TypeExpr.renamed τ)) (τ name) := by
    refine (hp d hd).imp fun e hfixed name he => TypeExpr.renamed_substituteName ?_
    exact hfixed name (by simp [he, TypeExpr.leafNames])
  -- The body of the declaration has no name that is renamed, so only the arguments change.
  rw [instantiate, TypeExpr.renamed_substitute hbare, TypeExpr.renamed_of_fixed (hp d hd), hopaque,
    instantiate]

/-- Below a renamed function, bare names keep their meaning. -/
theorem inherited_kept (hp : p.Fixed τ) : p.Inherited (Kept τ) where
  child he hc := (TypeExpr.all_iff.mp he).2 _ hc
  body := by
    intro scope name args d he _ hd
    have hargs := (TypeExpr.all_iff.mp he).2
    have hdecl : Kept τ [] d.type :=
      (hp d (List.mem_of_find?_eq_some hd)).imp fun e hfixed name he =>
        .inr ⟨hfixed name (by simp [he, TypeExpr.leafNames]), List.not_mem_nil⟩
    refine All.substitute (TypeExpr.stable_bare _) hdecl fun a ha => ?_
    obtain ⟨a', ha', rfl⟩ := List.mem_map.mp ha
    exact Kept.substitute_nil (hargs a' ha')

/-- The second result is the first one renamed, but for the text of a type that has no schema. -/
inductive Renames (τ : String → String) :
    Except SchemaError ResolvedType → Except SchemaError ResolvedType → Prop
  | error (e : SchemaError) : Renames τ (.error e) (.error e)
  | basic (kind : BasicKind) : Renames τ (.ok (.basic kind)) (.ok (.basic kind))
  | pointer (e : TypeExpr) : Renames τ (.ok (.pointer e)) (.ok (.pointer (e.renamed τ)))
  | sequence (e : TypeExpr) : Renames τ (.ok (.sequence e)) (.ok (.sequence (e.renamed τ)))
  | struct (fields : List FieldDecl) :
      Renames τ (.ok (.struct fields))
        (.ok (.struct (fields.map (FieldOf.mapType (TypeExpr.renamed τ)))))
  | unsupported (what what' : String) :
      Renames τ (.ok (.unsupported what)) (.ok (.unsupported what'))

theorem Renames.exists_ok {type : ResolvedType} {r : Except SchemaError ResolvedType}
    (h : Renames τ (.ok type) r) : ∃ type', r = .ok type' ∧ Renames τ (.ok type) (.ok type') := by
  cases h with
  | basic kind => exact ⟨_, rfl, .basic kind⟩
  | pointer e => exact ⟨_, rfl, .pointer e⟩
  | sequence e => exact ⟨_, rfl, .sequence e⟩
  | struct fields => exact ⟨_, rfl, .struct fields⟩
  | unsupported what what' => exact ⟨_, rfl, .unsupported what what'⟩

theorem renames_predeclared {name : String} {type : ResolvedType}
    (h : predeclared? name = some type) : Renames τ (.ok type) (.ok type) := by
  unfold predeclared? at h
  split at h
  · cases h
    exact .basic _
  · split at h
    · cases h
      exact .unsupported _ _
    · simp at h

/-- One step along a chain, and the same step renamed. -/
theorem link_renamed (hp : p.Fixed τ) {scope : List String} {e : TypeExpr} (he : Kept τ scope e) :
    (∃ r r', p.link scope e = .ends r ∧ p.link (scope.map τ) (e.renamed τ) = .ends r' ∧
      Renames τ r r') ∨
    ∃ name body, p.link scope e = .follows name body ∧
      p.link (scope.map τ) (e.renamed τ) = .follows name (body.renamed τ) := by
  cases e with
  | named name args =>
    obtain ⟨hhead, hargs⟩ := TypeExpr.all_iff.mp he
    by_cases hs : args = [] ∧ name ∈ scope
    · obtain ⟨rfl, hm⟩ := hs
      refine .inl ⟨_, _, ?_, ?_, .unsupported ("type parameter " ++ name)
        ("type parameter " ++ τ name)⟩
      · rw [link_named, if_pos ⟨rfl, hm⟩]
      · rw [TypeExpr.renamed_bare, link_named, if_pos ⟨rfl, List.mem_map_of_mem hm⟩]
    · -- A name that is no type parameter is the head of an instance, or keeps its meaning.
      obtain ⟨hname, hs'⟩ : (TypeExpr.named name args).renamed τ =
          .named name (args.map (TypeExpr.renamed τ)) ∧
            ¬ (args.map (TypeExpr.renamed τ) = [] ∧ name ∈ scope.map τ) := by
        by_cases hnil : args = []
        · subst hnil
          rcases hhead name rfl with hm | ⟨hname, hm⟩
          · exact absurd ⟨rfl, hm⟩ hs
          · exact ⟨by rw [TypeExpr.renamed_bare, hname]; rfl, fun h => hm h.2⟩
        · exact ⟨TypeExpr.renamed_instance τ name hnil, fun h => hnil (List.map_eq_nil_iff.mp h.1)⟩
      rw [hname, link_named, if_neg hs, link_named, if_neg hs']
      cases hd : p.typeDecl? name with
      | some d =>
        have hbody := renamed_instantiate hp (List.mem_of_find?_eq_some hd)
          (show ∀ a ∈ args, Kept τ scope a from hargs)
        exact .inr ⟨name, _, rfl, congrArg (Link.follows name) hbody.symm⟩
      | none =>
        cases hb : predeclared? name with
        | some type => exact .inl ⟨_, _, rfl, rfl, renames_predeclared hb⟩
        | none => exact .inl ⟨_, _, rfl, rfl, .error _⟩
  | pointer e => exact .inl ⟨_, _, rfl, rfl, .pointer e⟩
  | slice e | array e => exact .inl ⟨_, _, rfl, rfl, .sequence e⟩
  | struct fields =>
    refine .inl ⟨_, _, rfl, ?_, .struct fields⟩
    rw [TypeExpr.renamed, TypeExpr.renamedFields_eq_map]
    rfl
  | _ => exact .inl ⟨_, _, rfl, rfl, .unsupported _ _⟩

theorem renames_follow (hp : p.Fixed τ) {fresh scope : List String} {e : TypeExpr}
    (he : Kept τ scope e) :
    Renames τ (p.follow fresh scope e) (p.follow fresh (scope.map τ) (e.renamed τ)) := by
  -- A chain goes by the names of declared types, which stay: both sides have the same ones fresh.
  fun_induction follow p fresh scope e with
  | case1 fresh scope e result hl =>
    rcases link_renamed hp he with ⟨r, r', hr, hr', hrenames⟩ | ⟨name, body, hb, -⟩
    · obtain rfl := Link.ends.inj (hl.symm.trans hr)
      rwa [follow_of_ends hr']
    · cases hl.symm.trans hb
  | case2 fresh scope e name body hl hm ih =>
    rcases link_renamed hp he with ⟨r, r', hr, -, -⟩ | ⟨name', body', hb, hb'⟩
    · cases hl.symm.trans hr
    · obtain ⟨rfl, rfl⟩ := Link.follows.inj (hl.symm.trans hb)
      obtain ⟨args, d, rfl, hs, hd, rfl⟩ := link_follows hl
      rw [follow_of_mem hb' hm]
      exact ih ((inherited_kept hp).body he hs hd)
  | case3 fresh scope e name body hl hm =>
    rcases link_renamed hp he with ⟨r, r', hr, -, -⟩ | ⟨name', body', hb, hb'⟩
    · cases hl.symm.trans hr
    · obtain ⟨rfl, rfl⟩ := Link.follows.inj (hl.symm.trans hb)
      rw [follow_of_notMem hb' hm]
      exact .unsupported _ _

/-- What an expression is underneath is renamed with it. -/
theorem renames_resolve (hp : p.Fixed τ) {scope : List String} {e : TypeExpr}
    (he : Kept τ scope e) :
    Renames τ (p.resolve scope e) (p.resolve (scope.map τ) (e.renamed τ)) :=
  renames_follow hp he

end Package

/-! ## Functions -/

/-- Names for the type parameters of a function that stand nowhere else in it, nor in a type that
    the package declares. -/
structure FuncDecl.Fresh (f : FuncDecl) (p : Package) (names : List String) : Prop where
  length_eq : names.length = f.typeParams.length
  nodup : names.Nodup
  types : p.AllTypes fun e => ∀ name ∈ e.headNames, name ∉ names
  params : ∀ q ∈ f.params, q.type.All fun e => ∀ name ∈ e.headNames, name ∉ names

/-- The old name in place of a new one. -/
def FuncDecl.oldName (f : FuncDecl) (names : List String) : String → String :=
  renamedName names f.typeParams

namespace FuncDecl.Fresh

open TypeExpr (All Kept substituteName)

variable {p : Package} {f : FuncDecl} {names : List String}

theorem map_oldName (h : f.Fresh p names) : names.map (f.oldName names) = f.typeParams :=
  map_renamedName h.nodup h.length_eq

theorem fixed (h : f.Fresh p names) : p.Fixed (f.oldName names) := fun d hd =>
  (h.types d hd).imp fun _ hnot name hm =>
    renamedName_of_notMem (hnot name (TypeExpr.mem_headNames_of_mem_leafNames hm))

/-- A reference to a type parameter becomes one to its new name. -/
theorem exists_substituteName (h : f.Fresh p names) {name : String} (hname : name ∈ f.typeParams) :
    ∃ i, ∃ hi : i < names.length,
      substituteName f.typeParams (names.map fun new => .named new []) name =
        .named names[i] [] ∧ f.oldName names names[i] = name := by
  cases hidx : f.typeParams.idxOf? name with
  | none => exact absurd hname (List.idxOf?_eq_none_iff.mp hidx)
  | some i =>
    obtain ⟨hi, he, -⟩ := List.idxOf?_eq_some_iff.mp hidx
    have hi' : i < names.length := h.length_eq ▸ hi
    refine ⟨i, hi', by simp [substituteName, hidx, hi'], ?_⟩
    exact (renamedName_getElem h.nodup hi' hi).trans he

theorem renamed_substitute_param (h : f.Fresh p names) {q : FieldDecl} (hq : q ∈ f.params) :
    (q.type.substitute f.typeParams (names.map fun name => .named name [])).renamed
      (f.oldName names) = q.type := by
  have hold : q.type.All fun e => ∀ name ∈ e.leafNames, f.oldName names name = name :=
    (h.params q hq).imp fun _ hnot name hm =>
      renamedName_of_notMem (hnot name (TypeExpr.mem_headNames_of_mem_leafNames hm))
  have hbare : q.type.All fun e => ∀ name, e = .named name [] →
      (substituteName f.typeParams (names.map fun new => .named new []) name).renamed
          (f.oldName names) = substituteName [] [] (f.oldName names name) := by
    refine hold.imp fun e hfixed name he => ?_
    have hname : f.oldName names name = name := hfixed name (by simp [he, TypeExpr.leafNames])
    rw [TypeExpr.substituteName_of_notMem List.not_mem_nil, hname]
    by_cases hm : name ∈ f.typeParams
    · obtain ⟨i, hi, hs, ho⟩ := h.exists_substituteName hm
      rw [hs, TypeExpr.renamed_bare, ho]
    · rw [TypeExpr.substituteName_of_notMem hm, TypeExpr.renamed_bare, hname]
  rw [TypeExpr.renamed_substitute hbare, TypeExpr.substitute_nil, TypeExpr.renamed_of_fixed hold]

/-- Renaming takes a renamed function back. -/
theorem params_eq (h : f.Fresh p names) :
    (f.rename names).params.map (FieldOf.mapType (TypeExpr.renamed (f.oldName names))) =
      f.params := by
  have hparam : ∀ q ∈ f.params, FieldOf.mapType (TypeExpr.renamed (f.oldName names))
      (FieldOf.mapType (·.substitute f.typeParams (names.map fun name => .named name [])) q) = q :=
    fun q hq => by
      simp only [FieldOf.mapType]
      rw [h.renamed_substitute_param hq]
  rw [FuncDecl.rename, List.map_map]
  exact (List.map_congr_left hparam).trans (List.map_id' f.params)

/-- In a renamed function, bare names keep their meaning. -/
theorem kept (h : f.Fresh p names) :
    ∀ q ∈ (f.rename names).params, Kept (f.oldName names) (f.rename names).typeParams q.type := by
  intro q' hq'
  obtain ⟨q, hq, rfl⟩ := List.mem_map.mp hq'
  refine All.of_substitute (fun name hnot => ?_) (fun e hne _ name he => ?_) (h.params q hq)
  · by_cases hm : name ∈ f.typeParams
    · obtain ⟨i, hi, hs, -⟩ := h.exists_substituteName hm
      rw [hs]
      refine .intro (fun other he => .inl ?_) nofun
      obtain rfl : names[i] = other := (TypeExpr.named.inj he).1
      exact List.getElem_mem hi
    · rw [TypeExpr.substituteName_of_notMem hm]
      refine .intro (fun other he => .inr ?_) nofun
      obtain rfl : name = other := (TypeExpr.named.inj he).1
      exact ⟨renamedName_of_notMem (hnot name List.mem_cons_self), h.map_oldName.symm ▸ hm⟩
  · exact absurd he (TypeExpr.substitute_ne_bare hne name)

end FuncDecl.Fresh

end CallSchema
