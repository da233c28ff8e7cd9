import CallSchema.Proofs.Outcome

/-!
The expressions inside a type expression.

* `TypeExpr.induct` is induction on a type expression by its children.
* `TypeExpr.mapChildren` changes the children of an expression, which is what substitution does to
  anything but a bare name (`substitute_eq_mapChildren`).
* `TypeExpr.All P e` says that `P` holds of `e` and of every expression inside it, at whatever
  depth. Substitution keeps it if `P` does not look below a node (`All.substitute`).
* What a type resolves to is made of children of the expression at the end of its chain
  (`link_ends_parts`), so whatever passes from an expression to its children and from a name to its
  declaration (`Inherited`) passes on to the parts of its resolved type (`Inherited.of_resolve`).
-/

namespace CallSchema

/-- The field with its type changed. -/
def FieldOf.mapType (change : TypeExpr → TypeExpr) (f : FieldDecl) : FieldDecl :=
  { f with type := change f.type }

end CallSchema

namespace CallSchema.TypeExpr

/-- The expressions right below the head of an expression. -/
def children : TypeExpr → List TypeExpr
  | .named _ args => args
  | .qualified _ _ => []
  | .pointer pointee => [pointee]
  | .slice element => [element]
  | .array element => [element]
  | .struct fields => fields.map (·.type)
  | .map key value => [key, value]
  | .chan element => [element]
  | .interface => []
  | .func => []
  | .other _ => []

theorem sizeOf_lt_of_mem_children {c e : TypeExpr} (h : c ∈ e.children) : sizeOf c < sizeOf e := by
  cases e with
  | named name args =>
    have hc := List.sizeOf_lt_of_mem (show c ∈ args from h)
    rw [named.sizeOf_spec]
    omega
  | struct fields =>
    obtain ⟨f, hf, rfl⟩ := List.mem_map.mp h
    have hfields := List.sizeOf_lt_of_mem hf
    have htype : sizeOf f.type < sizeOf f := by
      cases f
      simp
      omega
    rw [struct.sizeOf_spec]
    omega
  | map key value =>
    have hc : c = key ∨ c = value := by simpa [children] using h
    rcases hc with rfl | rfl <;> rw [map.sizeOf_spec] <;> omega
  | pointer _ | slice _ | array _ | chan _ =>
    obtain rfl := List.mem_singleton.mp h
    simp
  | qualified _ _ | interface | func | other _ => exact absurd h List.not_mem_nil

/-- Induction on a type expression: a property passes from the children to the whole. -/
theorem induct {motive : TypeExpr → Prop} (h : ∀ e, (∀ c ∈ e.children, motive c) → motive e)
    (e : TypeExpr) : motive e :=
  h e fun c _ => induct h c
termination_by sizeOf e
decreasing_by exact sizeOf_lt_of_mem_children ‹_›

/-- The property holds of the expression and of every expression inside it. -/
inductive All (P : TypeExpr → Prop) : TypeExpr → Prop
  | intro {e : TypeExpr} (head : P e) (below : ∀ c ∈ e.children, All P c) : All P e

variable {P : TypeExpr → Prop}

theorem all_iff {e : TypeExpr} : All P e ↔ P e ∧ ∀ c ∈ e.children, All P c :=
  ⟨fun ⟨head, below⟩ => ⟨head, below⟩, fun h => .intro h.1 h.2⟩

theorem All.imp {Q : TypeExpr → Prop} {e : TypeExpr} (h : ∀ e, P e → Q e) (he : All P e) :
    All Q e := by
  induction he with
  | intro head _ ih => exact .intro (h _ head) ih

theorem All.and {Q : TypeExpr → Prop} {e : TypeExpr} (h : All P e) (h' : All Q e) :
    All (fun e => P e ∧ Q e) e := by
  induction h with
  | intro head _ ih =>
    obtain ⟨head', below'⟩ := all_iff.mp h'
    exact .intro ⟨head, head'⟩ fun c hc => ih c hc (below' c hc)

instance decidableAll [DecidablePred P] (e : TypeExpr) : Decidable (All P e) :=
  have inner (c : { c // c ∈ e.children }) : Decidable (All P c.1) := decidableAll c.1
  decidable_of_iff (P e ∧ ∀ c ∈ e.children.attach, All P c.1)
    ⟨fun h => .intro h.1 fun c hc => h.2 ⟨c, hc⟩ (List.mem_attach _ _),
      fun h => ⟨(all_iff.mp h).1, fun c _ => (all_iff.mp h).2 c.1 c.2⟩⟩
termination_by sizeOf e
decreasing_by exact sizeOf_lt_of_mem_children c.2

/-! ## Changing the children -/

section MapChildren

variable {change : TypeExpr → TypeExpr} {e : TypeExpr}

/-- The expression with each child changed. -/
def mapChildren (change : TypeExpr → TypeExpr) : TypeExpr → TypeExpr
  | .named name args => .named name (args.map change)
  | .qualified package name => .qualified package name
  | .pointer pointee => .pointer (change pointee)
  | .slice element => .slice (change element)
  | .array element => .array (change element)
  | .struct fields => .struct (fields.map (FieldOf.mapType change))
  | .map key value => .map (change key) (change value)
  | .chan element => .chan (change element)
  | .interface => .interface
  | .func => .func
  | .other text => .other text

theorem children_mapChildren (change : TypeExpr → TypeExpr) (e : TypeExpr) :
    (e.mapChildren change).children = e.children.map change := by
  cases e with
  | struct fields => simp [mapChildren, children, FieldOf.mapType]
  | _ => rfl

theorem mapChildren_mapChildren (first second : TypeExpr → TypeExpr) (e : TypeExpr) :
    (e.mapChildren first).mapChildren second = e.mapChildren (second ∘ first) := by
  cases e with
  | named name args => simp [mapChildren]
  | struct fields =>
    rw [mapChildren, mapChildren, List.map_map]
    rfl
  | _ => rfl

theorem mapChildren_congr {change' : TypeExpr → TypeExpr}
    (h : ∀ c ∈ e.children, change c = change' c) :
    e.mapChildren change = e.mapChildren change' := by
  cases e with
  | named name args => exact congrArg (named name) (List.map_congr_left h)
  | struct fields =>
    have hfields : ∀ f ∈ fields, FieldOf.mapType change f = FieldOf.mapType change' f :=
      fun f hf => by rw [FieldOf.mapType, FieldOf.mapType, h f.type (List.mem_map_of_mem hf)]
    exact congrArg struct (List.map_congr_left hfields)
  | map key value =>
    have hkey := h key List.mem_cons_self
    have hvalue := h value (List.mem_cons_of_mem key List.mem_cons_self)
    rw [mapChildren, mapChildren, hkey, hvalue]
  | pointer e | slice e | array e | chan e =>
    rw [mapChildren, mapChildren, h e List.mem_cons_self]
  | qualified _ _ | interface | func | other _ => rfl

theorem mapChildren_of_fixed (h : ∀ c ∈ e.children, change c = c) : e.mapChildren change = e := by
  have hid : e.mapChildren id = e := by
    cases e with
    | named name args => exact congrArg (named name) (List.map_id args)
    | struct fields => exact congrArg struct (List.map_id fields)
    | _ => rfl
  exact (mapChildren_congr h).trans hid

theorem mapChildren_ne_bare (h : ∀ name, e ≠ .named name []) (name : String) :
    e.mapChildren change ≠ .named name [] := by
  cases e with
  | named head args =>
    have hargs : args ≠ [] := fun hnil => h head (hnil ▸ rfl)
    simpa [mapChildren] using fun _ => hargs
  | _ => simp [mapChildren]

end MapChildren

/-! ## Substitution -/

/-- Substitution in anything but a bare name goes on in the children. -/
theorem substitute_eq_mapChildren {params : List String} {args : List TypeExpr} {e : TypeExpr}
    (h : ∀ name, e ≠ .named name []) :
    e.substitute params args = e.mapChildren (substitute params args) := by
  cases e with
  | named name own =>
    have hown : own ≠ [] := fun hnil => h name (hnil ▸ rfl)
    rw [substitute, if_neg (by simpa using hown), substituteList_eq_map]
    rfl
  | struct fields => exact congrArg struct (substituteFields_eq_map params args fields)
  | _ => rfl

theorem substitute_bare (params : List String) (args : List TypeExpr) (name : String) :
    (named name []).substitute params args = substituteName params args name := rfl

theorem substituteName_of_notMem {params : List String} {name : String} (h : name ∉ params)
    (args : List TypeExpr) : substituteName params args name = .named name [] := by
  rw [substituteName, List.idxOf?_eq_none_iff.mpr h]

/-- A parameter becomes the argument at its place, and opaque if there is none. -/
theorem substituteName_of_mem {params : List String} {name : String} (h : name ∈ params)
    (args : List TypeExpr) :
    substituteName params args name = (args[params.idxOf name]?).getD (.other name) := by
  have hidx : params.idxOf? name = some (params.idxOf name) :=
    List.findIdx?_eq_some_iff_findIdx_eq.mpr ⟨List.idxOf_lt_length_iff.mpr h, rfl⟩
  rw [substituteName, hidx]

theorem substituteName_nil_of_mem {params : List String} {name : String} (h : name ∈ params) :
    substituteName params [] name = .other name :=
  substituteName_of_mem h []

/-- Where there are enough arguments, a parameter becomes one of them. -/
theorem exists_substituteName_eq {params : List String} {args : List TypeExpr} {name : String}
    (h : name ∈ params) (hlength : params.length ≤ args.length) :
    ∃ a ∈ args, substituteName params args name = a := by
  have hi : params.idxOf name < args.length :=
    Nat.lt_of_lt_of_le (List.idxOf_lt_length_iff.mpr h) hlength
  refine ⟨args[params.idxOf name], List.getElem_mem hi, ?_⟩
  rw [substituteName_of_mem h, List.getElem?_eq_getElem hi, Option.getD_some]

/-- Only a bare name becomes one. -/
theorem substitute_ne_bare {params : List String} {args : List TypeExpr} {e : TypeExpr}
    (h : ∀ name, e ≠ .named name []) (name : String) :
    e.substitute params args ≠ .named name [] := by
  rw [substitute_eq_mapChildren h]
  exact mapChildren_ne_bare h name

/-- Nothing happens to an expression without any parameters to replace. -/
theorem substitute_nil (args : List TypeExpr) (e : TypeExpr) : e.substitute [] args = e := by
  induction e using induct with
  | h e ih =>
    by_cases hbare : ∃ name, e = .named name []
    · obtain ⟨name, rfl⟩ := hbare
      rfl
    · rw [substitute_eq_mapChildren fun name he => hbare ⟨name, he⟩]
      exact mapChildren_of_fixed ih

/-- The property looks at nothing but the head of an expression, where a name may lose its
    meaning. -/
structure Stable (P : TypeExpr → Prop) : Prop where
  other_of_named : ∀ {name : String}, P (.named name []) → P (.other name)
  substitute : ∀ {params : List String} {args : List TypeExpr} {e : TypeExpr},
    (∀ name, e ≠ .named name []) → P e → P (e.substitute params args)

theorem All.other_of_named (hP : Stable P) {name : String} (h : All P (.named name [])) :
    All P (.other name) :=
  .intro (hP.other_of_named (all_iff.mp h).1) fun _ hc => absurd hc List.not_mem_nil

/-- What a property makes of bare names and of other heads holds throughout the result. -/
theorem All.of_substitute {Q : TypeExpr → Prop} {params : List String} {args : List TypeExpr}
    (hname : ∀ name, Q (.named name []) → All P (substituteName params args name))
    (hhead : ∀ e, (∀ name, e ≠ .named name []) → Q e → P (e.substitute params args))
    {e : TypeExpr} (he : All Q e) : All P (e.substitute params args) := by
  induction he with
  | @intro e head below ih =>
    by_cases hbare : ∃ name, e = .named name []
    · obtain ⟨name, rfl⟩ := hbare
      exact hname name head
    · have hne : ∀ name, e ≠ .named name [] := fun name he => hbare ⟨name, he⟩
      refine .intro (hhead e hne head) fun c hc => ?_
      rw [substitute_eq_mapChildren hne, children_mapChildren] at hc
      obtain ⟨c', hc', rfl⟩ := List.mem_map.mp hc
      exact ih c' hc'

/-- What holds throughout an expression and the arguments holds throughout the result. -/
theorem All.substitute (hP : Stable P) {params : List String} {args : List TypeExpr}
    {e : TypeExpr} (he : All P e) (hargs : ∀ a ∈ args, All P a) :
    All P (e.substitute params args) := by
  refine he.of_substitute (fun name head => ?_) fun e hne head => hP.substitute hne head
  have hname : All P (.named name []) := .intro head fun _ hc => absurd hc List.not_mem_nil
  rw [substituteName]
  split
  · rename_i i _
    cases ha : args[i]? with
    | none => exact hname.other_of_named hP
    | some a => exact hargs a (List.mem_of_getElem? ha)
  · exact hname

end CallSchema.TypeExpr

/-! ## Resolution -/

namespace CallSchema.Package

open Expansion (innerScope)
open TypeExpr (All Stable)

variable {p : Package} {P : TypeExpr → Prop}

/-- The property holds throughout the types that the package declares. -/
def AllTypes (p : Package) (P : TypeExpr → Prop) : Prop := ∀ d ∈ p.types, All P d.type

instance [DecidablePred P] : Decidable (p.AllTypes P) :=
  inferInstanceAs (Decidable (∀ d ∈ p.types, All P d.type))

theorem innerScope_nil (e : TypeExpr) : innerScope [] e = [] := by
  unfold innerScope
  split <;> rfl

theorem link_named (scope : List String) (name : String) (args : List TypeExpr) :
    p.link scope (.named name args) =
      if args = [] ∧ name ∈ scope then .ends (.ok (.unsupported ("type parameter " ++ name)))
      else
        match p.typeDecl? name with
        | some d => .follows name (instantiate d scope args)
        | none =>
          match predeclared? name with
          | some type => .ends (.ok type)
          | none => .ends (.error (.unresolvedType name)) :=
  ite_congr (by simp) (fun _ => rfl) fun _ => rfl

theorem parts_of_predeclared? {name : String} {type : ResolvedType}
    (h : predeclared? name = some type) : type.parts = [] := by
  unfold predeclared? at h
  split at h
  · cases h
    rfl
  · split at h
    · cases h
      rfl
    · simp at h

/-- What a name stands for by itself has no parts. -/
theorem parts_of_link_named {scope : List String} {name : String} {args : List TypeExpr}
    {type : ResolvedType} (h : p.link scope (.named name args) = .ends (.ok type)) :
    type.parts = [] := by
  rw [link_named] at h
  split at h
  · obtain rfl : ResolvedType.unsupported ("type parameter " ++ name) = type := by simpa using h
    rfl
  · split at h
    · simp at h
    · split at h
      · rename_i hpre
        obtain rfl : _ = type := by simpa using h
        exact parts_of_predeclared? hpre
      · simp at h

/-- At the end of a chain stand the children of an expression. -/
theorem link_ends_parts {scope : List String} {e part : TypeExpr} {type : ResolvedType}
    (h : p.link scope e = .ends (.ok type)) (hp : part ∈ type.parts) : part ∈ e.children := by
  cases e with
  | named name args =>
    rw [parts_of_link_named h] at hp
    exact absurd hp List.not_mem_nil
  | struct fields =>
    cases h
    obtain ⟨f, hf, -, rfl⟩ := ResolvedType.mem_parts_struct.mp hp
    exact List.mem_map_of_mem hf
  | pointer _ | slice _ | array _ =>
    cases h
    exact hp
  | _ =>
    cases h
    exact absurd hp List.not_mem_nil

/-- Anything but a name ends a chain. -/
theorem exists_link_ends {scope : List String} {e : TypeExpr}
    (h : ∀ name args, e ≠ .named name args) : ∃ type, p.link scope e = .ends (.ok type) := by
  cases e with
  | named name args => exact absurd rfl (h name args)
  | _ => exact ⟨_, rfl⟩

/-- The body that a name leads to is that of a declaration with the arguments put in. -/
theorem link_follows {scope : List String} {e body : TypeExpr} {name : String}
    (h : p.link scope e = .follows name body) :
    ∃ args d, e = .named name args ∧ ¬ (args = [] ∧ name ∈ scope) ∧ p.typeDecl? name = some d ∧
      body = instantiate d scope args := by
  cases e with
  | named name' args =>
    rw [link_named] at h
    split at h
    · simp at h
    · rename_i hscope
      split at h
      · rename_i d hd
        simp only [Link.follows.injEq] at h
        obtain ⟨rfl, rfl⟩ := h
        exact ⟨args, d, rfl, hscope, hd, rfl⟩
      · split at h <;> simp at h
  | _ => simp [link] at h

theorem follow_of_ends {fresh scope : List String} {e : TypeExpr}
    {r : Except SchemaError ResolvedType} (h : p.link scope e = .ends r) :
    p.follow fresh scope e = r := by
  rw [follow, h]

theorem follow_of_mem {fresh scope : List String} {e body : TypeExpr} {name : String}
    (h : p.link scope e = .follows name body) (hm : name ∈ fresh) :
    p.follow fresh scope e = p.follow (without fresh name) [] body := by
  conv => lhs; rw [follow, h]
  exact if_pos hm

theorem follow_of_notMem {fresh scope : List String} {e body : TypeExpr} {name : String}
    (h : p.link scope e = .follows name body) (hm : name ∉ fresh) :
    p.follow fresh scope e = .ok (.unsupported ("invalid recursive type " ++ name)) := by
  rw [follow, h]
  exact if_neg hm

/-- What passes from an expression to those in it, which stand in its scope, and from a name to the
    declaration it stands for, which stands in none. -/
structure Inherited (p : Package) (I : List String → TypeExpr → Prop) : Prop where
  child : ∀ {scope : List String} {e c : TypeExpr}, I scope e → c ∈ e.children → I scope c
  body : ∀ {scope : List String} {name : String} {args : List TypeExpr} {d : TypeDecl},
    I scope (.named name args) → ¬ (args = [] ∧ name ∈ scope) → p.typeDecl? name = some d →
      I [] (instantiate d scope args)

theorem Inherited.of_follow {I : List String → TypeExpr → Prop} (hI : p.Inherited I)
    {fresh scope : List String} {e part : TypeExpr} {type : ResolvedType} (he : I scope e)
    (h : p.follow fresh scope e = .ok type) (hpart : part ∈ type.parts) :
    I (innerScope scope e) part := by
  fun_induction follow p fresh scope e with
  | case1 fresh scope e result hl =>
    have hchild : part ∈ e.children := link_ends_parts (h ▸ hl) hpart
    cases e with
    | named name args =>
      rw [parts_of_link_named (h ▸ hl)] at hpart
      exact absurd hpart List.not_mem_nil
    | _ => exact hI.child he hchild
  | case2 fresh scope e name body hl hm ih =>
    obtain ⟨args, d, rfl, hs, hd, rfl⟩ := link_follows hl
    have hinner := ih (hI.body he hs hd) h
    rwa [innerScope_nil] at hinner
  | case3 fresh scope e name body hl hm =>
    cases h
    exact absurd hpart List.not_mem_nil

/-- It passes on to the parts of what an expression is underneath. -/
theorem Inherited.of_resolve {I : List String → TypeExpr → Prop} (hI : p.Inherited I)
    {scope : List String} {e part : TypeExpr} {type : ResolvedType} (he : I scope e)
    (h : p.resolve scope e = .ok type) (hpart : part ∈ type.parts) : I (innerScope scope e) part :=
  hI.of_follow he h hpart

theorem inherited_all (hP : Stable P) (hp : p.AllTypes P) : p.Inherited fun _ e => All P e where
  child he hc := (TypeExpr.all_iff.mp he).2 _ hc
  body := by
    intro scope name args d he _ hd
    have hargs := (TypeExpr.all_iff.mp he).2
    refine (hp d (List.mem_of_find?_eq_some hd)).substitute hP fun a ha => ?_
    obtain ⟨a', ha', rfl⟩ := List.mem_map.mp ha
    exact (hargs a' ha').substitute hP fun _ hc => absurd hc List.not_mem_nil

/-- What holds throughout a package and an expression holds throughout the parts of what the
    expression is underneath. -/
theorem all_of_resolve (hP : Stable P) (hp : p.AllTypes P) {scope : List String} {e : TypeExpr}
    {type : ResolvedType} (he : All P e) (h : p.resolve scope e = .ok type) :
    ∀ part ∈ type.parts, All P part :=
  fun _ hpart => (inherited_all hP hp).of_resolve he h hpart

theorem unresolvedType_of_link {scope : List String} {e : TypeExpr} {error : SchemaError}
    (h : p.link scope e = .ends (.error error)) : ∃ name, error = .unresolvedType name := by
  cases e with
  | named name args =>
    rw [link_named] at h
    split at h
    · simp at h
    · split at h
      · simp at h
      · split at h
        · simp at h
        · exact ⟨name, by simpa using h.symm⟩
  | _ => simp [link] at h

theorem unresolvedType_of_follow {fresh scope : List String} {e : TypeExpr} {error : SchemaError}
    (h : p.follow fresh scope e = .error error) : ∃ name, error = .unresolvedType name := by
  fun_induction follow p fresh scope e with
  | case1 fresh scope e result hl => exact unresolvedType_of_link (h ▸ hl)
  | case2 fresh scope e name body hl hm ih => exact ih h
  | case3 fresh scope e name body hl hm => simp at h

/-- A chain fails only at a name that nothing declares. -/
theorem kind_of_resolve_error {scope : List String} {e : TypeExpr} {error : SchemaError}
    (h : p.resolve scope e = .error error) : error.kind = .typeResolution := by
  obtain ⟨name, rfl⟩ := unresolvedType_of_follow h
  rfl

/-- An expression that is no name resolves to its own head. -/
theorem mem_children_of_resolve {scope : List String} {e part : TypeExpr} {type : ResolvedType}
    (he : ∀ name args, e ≠ .named name args) (h : p.resolve scope e = .ok type)
    (hp : part ∈ type.parts) : part ∈ e.children := by
  obtain ⟨type', hl⟩ : ∃ type', p.link scope e = .ends (.ok type') := exists_link_ends he
  unfold resolve follow at h
  rw [hl] at h
  obtain rfl := Except.ok.inj h
  exact link_ends_parts hl hp

/-- Only a declared name leads to types inside it. -/
theorem mem_typeNames_of_resolve {scope : List String} {name : String} {args : List TypeExpr}
    {part : TypeExpr} {type : ResolvedType} (h : p.resolve scope (.named name args) = .ok type)
    (hp : part ∈ type.parts) : name ∈ p.typeNames := by
  unfold resolve follow at h
  split at h
  · rename_i hl
    rw [parts_of_link_named (h ▸ hl)] at hp
    exact absurd hp List.not_mem_nil
  · rename_i hl
    obtain ⟨_, d, he, -, hd, -⟩ := link_follows hl
    cases he
    exact mem_typeNames_of_typeDecl? hd

end CallSchema.Package
