import CallSchema.Proofs.Subterms
import Mathlib.Data.List.Basic

/-!
Substituting twice, and what becomes of the names.

A substitution looks at the bare references of an expression only; `bareNames` lists them from left
to right.

1. `bareNames_substitute`: each bare reference gives way to the references of what stands in its
   place, which is itself, an argument as it was, or nothing.
2. `substitute_substitute_iff`: two substitutions are one, with the second made in the arguments of
   the first, exactly if the second leaves alone whatever the first left alone.
-/

namespace CallSchema.TypeExpr

variable {e : TypeExpr} {params params' : List String} {args args' : List TypeExpr}

/-! ## Bare references -/

/-- The bare references in an expression, from left to right. The head of an instantiation is none
    of them. -/
def bareNames : TypeExpr → List String
  | .named name [] => [name]
  | e => e.children.attach.flatMap fun c => bareNames c.1
termination_by e => sizeOf e
decreasing_by exact sizeOf_lt_of_mem_children c.2

theorem bareNames_bare (name : String) : (named name []).bareNames = [name] := by
  rw [bareNames]

theorem bareNames_of_ne_bare (h : ∀ name, e ≠ .named name []) :
    e.bareNames = e.children.flatMap bareNames := by
  rw [bareNames.eq_2 e h, List.flatMap_subtype fun _ _ => rfl, List.unattach_attach]

/-- An opaque expression refers to nothing. -/
theorem bareNames_other (text : String) : (other text).bareNames = [] :=
  bareNames_of_ne_bare nofun

/-- What a bare reference becomes refers to what the argument of its parameter refers to, to nothing
    if that argument is missing, and to the name itself if it is no parameter. -/
theorem bareNames_substituteName (params : List String) (args : List TypeExpr) (name : String) :
    (substituteName params args name).bareNames =
      if name ∈ params then ((args[params.idxOf name]?).map bareNames).getD [] else [name] := by
  by_cases hname : name ∈ params
  · rw [if_pos hname, substituteName_of_mem hname]
    cases args[params.idxOf name]? with
    | none => exact bareNames_other name
    | some a => rfl
  · rw [if_neg hname, substituteName_of_notMem hname, bareNames_bare]

/-- The references after a substitution, in order. -/
theorem bareNames_substitute (params : List String) (args : List TypeExpr) (e : TypeExpr) :
    (e.substitute params args).bareNames =
      e.bareNames.flatMap fun name => (substituteName params args name).bareNames := by
  induction e using induct with
  | h e ih =>
    by_cases hbare : ∃ name, e = .named name []
    · obtain ⟨name, rfl⟩ := hbare
      rw [bareNames_bare, substitute_bare, List.flatMap_singleton]
    · have hne : ∀ name, e ≠ .named name [] := fun name he => hbare ⟨name, he⟩
      rw [bareNames_of_ne_bare (substitute_ne_bare hne), bareNames_of_ne_bare hne,
        substitute_eq_mapChildren hne, children_mapChildren, List.flatMap_map, List.flatMap_assoc]
      exact List.flatMap_congr ih

/-! ## Two substitutions -/

theorem mapChildren_eq_iff {change change' : TypeExpr → TypeExpr} :
    e.mapChildren change = e.mapChildren change' ↔ ∀ c ∈ e.children, change c = change' c := by
  constructor
  · intro h
    have hchildren := congrArg children h
    rw [children_mapChildren, children_mapChildren] at hchildren
    exact List.map_inj_left.mp hchildren
  · exact mapChildren_congr

/-- At a parameter, the second substitution goes on in the argument. -/
theorem substitute_substituteName_of_mem {name : String} (h : name ∈ params) :
    (substituteName params args name).substitute params' args' =
      substituteName params (args.map (substitute params' args')) name := by
  rw [substituteName_of_mem h, substituteName_of_mem h, List.getElem?_map]
  cases args[params.idxOf name]? <;> rfl

theorem substitute_substitute_iff :
    (e.substitute params args).substitute params' args' =
        e.substitute params (args.map (substitute params' args')) ↔
      ∀ name ∈ e.bareNames, name ∉ params → substituteName params' args' name = .named name [] := by
  induction e using induct with
  | h e ih =>
    by_cases hbare : ∃ name, e = .named name []
    · obtain ⟨name, rfl⟩ := hbare
      rw [bareNames_bare, substitute_bare, substitute_bare]
      by_cases hname : name ∈ params
      · simp [substitute_substituteName_of_mem hname, hname]
      · simp [substituteName_of_notMem hname, substitute_bare, hname]
    · have hne : ∀ name, e ≠ .named name [] := fun name he => hbare ⟨name, he⟩
      -- Both sides change the children, so they are equal if they are so at each child.
      rw [substitute_eq_mapChildren (substitute_ne_bare hne), substitute_eq_mapChildren hne,
        substitute_eq_mapChildren hne, mapChildren_mapChildren, mapChildren_eq_iff,
        bareNames_of_ne_bare hne]
      constructor
      · intro h name hm hnot
        obtain ⟨c, hc, hname⟩ := List.mem_flatMap.mp hm
        exact (ih c hc).mp (h c hc) name hname hnot
      · intro h c hc
        apply (ih c hc).mpr
        intro name hname hnot
        exact h name (List.mem_flatMap.mpr ⟨c, hc, hname⟩) hnot

/-- Substitution composes, and neither loses nor captures a name.

    Where no bare name of the expression outside the first parameters is one of the second, to
    substitute twice is to substitute once, with the second substitution made in the arguments. The
    bare references of a result are those of the expression, in order, with each parameter's
    reference replaced by the references of its own argument, or by none if that is missing. So a
    bare reference of the result is one of the expression that is no parameter, or it stands in an
    argument. -/
theorem substitute_composes (e : TypeExpr) (params params' : List String)
    (args args' : List TypeExpr) :
    ((∀ name ∈ e.bareNames, name ∉ params → name ∉ params') →
        (e.substitute params args).substitute params' args' =
          e.substitute params (args.map (substitute params' args'))) ∧
      ((e.substitute params args).bareNames = e.bareNames.flatMap fun name =>
        if name ∈ params then ((args[params.idxOf name]?).map bareNames).getD [] else [name]) ∧
      ∀ name ∈ (e.substitute params args).bareNames,
        name ∈ e.bareNames ∧ name ∉ params ∨ ∃ a ∈ args, name ∈ a.bareNames := by
  have hrefs : (e.substitute params args).bareNames = e.bareNames.flatMap fun name =>
      if name ∈ params then ((args[params.idxOf name]?).map bareNames).getD [] else [name] := by
    rw [bareNames_substitute]
    apply List.flatMap_congr
    intro name _
    exact bareNames_substituteName params args name
  refine ⟨fun h => ?_, hrefs, fun name hname => ?_⟩
  · apply substitute_substitute_iff.mpr
    intro name hm hnot
    exact substituteName_of_notMem (h name hm hnot) args'
  · rw [hrefs] at hname
    obtain ⟨own, hown, hm⟩ := List.mem_flatMap.mp hname
    split at hm
    · cases ha : args[params.idxOf own]? with
      | none => simp [ha] at hm
      | some a => exact .inr ⟨a, List.mem_of_getElem? ha, by simpa [ha] using hm⟩
    · next hnot =>
      obtain rfl := List.mem_singleton.mp hm
      exact .inl ⟨hown, hnot⟩

/-- `Pair[K, []V]` with the one argument `Box[K]` for `K` and `V`, and then `int` for `K`. -/
theorem substitute_composes_pair :
    (∀ name ∈ (named "Pair" [.named "K" [], .slice (.named "V" [])]).bareNames,
        name ∉ ["K", "V"] → name ∉ ["K"]) ∧
      ((named "Pair" [.named "K" [], .slice (.named "V" [])]).substitute ["K", "V"]
          [.named "Box" [.named "K" []]]).substitute ["K"] [.named "int" []] =
        .named "Pair" [.named "Box" [.named "int" []], .slice (.other "V")] := by
  have hnames : ∀ name ∈ (named "Pair" [.named "K" [], .slice (.named "V" [])]).bareNames,
      name ∉ ["K", "V"] → name ∉ ["K"] := by
    intro name _ hnot hm
    obtain rfl := List.mem_singleton.mp hm
    exact hnot List.mem_cons_self
  obtain ⟨hcomposes, -, -⟩ := substitute_composes
    (named "Pair" [.named "K" [], .slice (.named "V" [])]) ["K", "V"] ["K"]
    [.named "Box" [.named "K" []]] [.named "int" []]
  exact ⟨hnames, hcomposes hnames⟩

end CallSchema.TypeExpr
