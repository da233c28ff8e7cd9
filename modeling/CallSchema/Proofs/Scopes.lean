import CallSchema.Proofs.Policies
import CallSchema.Proofs.Reading

/-!
Two ways to say that a name is a type parameter: to have it in scope, and to put an opaque
expression in its place.

1. `resolve_named_substitute`: a named type leads to the same, either way, since what is put into a
   declaration has its type parameters made opaque.
2. `typeDefinition_substitute`: a schema is the same, either way, as long as no type is being
   expanded.
3. `ScopeOrStack.entered`: where type parameters are in scope, that is so. A named type that is
   entered takes its text onto the stack and closes the scope.
-/

namespace CallSchema

namespace Package

variable {p : Package} {scope : List String}

/-- A chain goes on from its first link. -/
theorem follow_congr {fresh scope' : List String} {e e' : TypeExpr}
    (h : p.link scope e = p.link scope' e') :
    p.follow fresh scope e = p.follow fresh scope' e' := by
  rw [follow, follow, h]

/-- Making type parameters opaque leaves a name that is none of them. -/
theorem substitute_named {name : String} {args : List TypeExpr}
    (h : ¬ (args = [] ∧ name ∈ scope)) :
    (TypeExpr.named name args).substitute scope [] =
      .named name (args.map (TypeExpr.substitute scope [])) := by
  cases args with
  | nil =>
    have hname : name ∉ scope := fun hm => h ⟨rfl, hm⟩
    rw [TypeExpr.substitute_bare, TypeExpr.substituteName_of_notMem hname, List.map_nil]
  | cons a args => rw [TypeExpr.substitute_eq_mapChildren (by simp), TypeExpr.mapChildren]

/-- Arguments are made opaque where they are put into a declaration, and once is enough. -/
theorem instantiate_substitute (d : TypeDecl) (args : List TypeExpr) :
    instantiate d [] (args.map (TypeExpr.substitute scope [])) = instantiate d scope args := by
  have hid : (TypeExpr.substitute [] []) ∘ TypeExpr.substitute scope [] =
      TypeExpr.substitute scope [] := funext fun e => TypeExpr.substitute_nil [] _
  rw [instantiate, instantiate, List.map_map, hid]

theorem link_named_substitute {name : String} {args : List TypeExpr}
    (h : ¬ (args = [] ∧ name ∈ scope)) :
    p.link [] (.named name (args.map (TypeExpr.substitute scope []))) =
      p.link scope (.named name args) := by
  rw [link_named, link_named, if_neg h, if_neg (by simp)]
  cases p.typeDecl? name with
  | none => rfl
  | some d => exact congrArg (Link.follows name) (instantiate_substitute d args)

/-- A named type that is no type parameter leads to the same, when those in its arguments are made
    opaque. -/
theorem resolve_named_substitute {name : String} {args : List TypeExpr}
    (h : ¬ (args = [] ∧ name ∈ scope)) :
    p.resolve [] ((TypeExpr.named name args).substitute scope []) =
      p.resolve scope (.named name args) := by
  rw [substitute_named h]
  exact follow_congr (link_named_substitute h)

/-- A type parameter is no type, and neither is what stands in its place. -/
theorem resolve_typeParam (p : Package) {name : String} (h : name ∈ scope) :
    (∃ what, p.resolve scope (.named name []) = .ok (.unsupported what)) ∧
      ∃ what, p.resolve [] ((TypeExpr.named name []).substitute scope []) =
        .ok (.unsupported what) := by
  constructor
  · refine ⟨"type parameter " ++ name, follow_of_ends ?_⟩
    rw [link_named, if_pos ⟨rfl, h⟩]
  · rw [TypeExpr.substitute_bare, TypeExpr.substituteName_nil_of_mem h]
    exact ⟨name, follow_of_ends rfl⟩

end Package

/-- The type with the types that its schema is made of changed. -/
def ResolvedType.mapParts (change : TypeExpr → TypeExpr) : ResolvedType → ResolvedType
  | .basic kind => .basic kind
  | .pointer pointee => .pointer (change pointee)
  | .sequence element => .sequence (change element)
  | .struct fields => .struct (fields.map (FieldOf.mapType change))
  | .unsupported what => .unsupported what

/-- Anything but a name is what its head says, and substitution goes on in its parts. -/
theorem Package.resolve_substitute (p : Package) (scope : List String) {e : TypeExpr}
    (h : ∀ name args, e ≠ .named name args) :
    ∃ type, p.resolve scope e = .ok type ∧
      p.resolve [] (e.substitute scope []) =
        .ok (type.mapParts (TypeExpr.substitute scope [])) := by
  cases e with
  | named name args => exact absurd rfl (h name args)
  | struct fields =>
    refine ⟨.struct fields, follow_of_ends rfl, follow_of_ends ?_⟩
    rw [TypeExpr.substitute, TypeExpr.substituteFields_eq_map]
    rfl
  | _ => exact ⟨_, follow_of_ends rfl, follow_of_ends rfl⟩

namespace Expansion

variable {p : Package} {provider : Provider} {guard : Option CyclePolicy} {scope : List String}
  {change : TypeExpr → TypeExpr} {define define' : TypeExpr → Expansion Definition}

/-! ## Schemas -/

theorem insertFields_map (h : ∀ e, define' (change e) = define e) (object : Definition)
    (fs : List FieldDecl) :
    insertFields define' object (fs.map (FieldOf.mapType change)) =
      insertFields define object fs := by
  induction fs generalizing object with
  | nil => rfl
  | cons f fs ih =>
    rw [List.map_cons]
    cases hn : fieldNames f with
    | nil =>
      have hn' : fieldNames (f.mapType change) = [] := hn
      rw [insertFields_blank hn, insertFields_blank hn', ih]
    | cons label names =>
      have hn' : fieldNames (f.mapType change) = label :: names := hn
      have hfield : field define' (f.mapType change) label = field define f label := by
        show (finished (tagsOf f label) >>= fun tags => define' (change f.type) >>= _) = _
        rw [h]
        rfl
      rw [insertFields_named hn, insertFields_named hn', hfield]
      exact congrArg _ (funext fun value => ih _)

theorem resolvedDefinition_mapParts (h : ∀ e, define' (change e) = define e)
    (type : ResolvedType) :
    resolvedDefinition define' (type.mapParts change) = resolvedDefinition define type := by
  cases type with
  | basic _ | unsupported _ => rfl
  | pointer pointee => exact h pointee
  | sequence element => exact congrArg (Definition.array <$> ·) (h element)
  | struct fields => exact insertFields_map h .object fields

/-- While no type is being expanded, the guard lets everything pass. -/
theorem typeDefinition_fresh (depth : Nat) (e : TypeExpr) :
    typeDefinition p.provider guard (depth + 1) [] scope e =
      finished (p.resolve scope e) >>= resolvedDefinition
        (typeDefinition p.provider guard depth (entered [] e) (innerScope scope e)) :=
  typeDefinition_passed (guarded_eq_none fun _ _ => List.not_mem_nil) depth

theorem identity?_eq_none {e : TypeExpr} (h : ∀ name args, e ≠ .named name args) :
    identity? e = none := by
  cases e with
  | named name args => exact absurd rfl (h name args)
  | _ => rfl

/-- What is no name enters nothing, and leaves its scope to its parts. -/
theorem typeDefinition_unnamed {e : TypeExpr} {type : ResolvedType}
    (h : ∀ name args, e ≠ .named name args) (hr : p.resolve scope e = .ok type) (depth : Nat) :
    typeDefinition p.provider guard (depth + 1) [] scope e =
      resolvedDefinition (typeDefinition p.provider guard depth [] scope) type := by
  rw [typeDefinition_fresh, hr, entered, innerScope, identity?_eq_none h]
  rfl

theorem substitute_ne_named {e : TypeExpr} (h : ∀ name args, e ≠ .named name args) :
    ∀ name args, e.substitute scope [] ≠ .named name args := by
  cases e with
  | named name args => exact absurd rfl (h name args)
  | _ => nofun

theorem display_substitute_opaque (params : List String) (e : TypeExpr) :
    (e.substitute params []).display = e.display := by
  rw [← TypeExpr.display_outline, TypeExpr.outline_substitute_opaque, TypeExpr.display_outline]

/-- A named type is entered under the same text, and leaves no type parameters in scope. -/
theorem entered_substitute {name : String} {args : List TypeExpr}
    (h : ¬ (args = [] ∧ name ∈ scope)) :
    entered [] ((TypeExpr.named name args).substitute scope []) =
      entered [] (.named name args) := by
  have htext := display_substitute_opaque scope (.named name args)
  rw [Package.substitute_named h] at htext ⊢
  exact congrArg (fun text => [text]) htext

/-- While no type is being expanded, an expression with its type parameters in scope has the schema,
    or the error, of the expression with those made opaque. -/
theorem typeDefinition_substitute (depth : Nat) (e : TypeExpr) :
    typeDefinition p.provider guard depth [] [] (e.substitute scope []) =
      typeDefinition p.provider guard depth [] scope e := by
  induction depth generalizing e with
  | zero => rfl
  | succ depth ih =>
    by_cases hnamed : ∃ name args, e = .named name args
    · obtain ⟨name, args, rfl⟩ := hnamed
      rw [typeDefinition_fresh, typeDefinition_fresh]
      by_cases hparam : args = [] ∧ name ∈ scope
      · obtain ⟨rfl, hm⟩ := hparam
        obtain ⟨⟨what, hscope⟩, what', hopaque⟩ := p.resolve_typeParam hm
        rw [hscope, hopaque]
        rfl
      · -- Behind the name, both go on in the same expressions with nothing in scope.
        have hinner : innerScope [] ((TypeExpr.named name args).substitute scope []) =
            innerScope scope (.named name args) := by
          rw [Package.substitute_named hparam]
          rfl
        rw [Package.resolve_named_substitute hparam, entered_substitute hparam, hinner]
    · have hne : ∀ name args, e ≠ .named name args := fun name args he => hnamed ⟨name, args, he⟩
      obtain ⟨type, hscope, hopaque⟩ := p.resolve_substitute scope hne
      rw [typeDefinition_unnamed hne hscope,
        typeDefinition_unnamed (substitute_ne_named hne) hopaque]
      exact resolvedDefinition_mapParts ih type

/-! ## The stack -/

/-- Type parameters are in scope only while no type is being expanded. -/
def ScopeOrStack (expanding scope : List String) : Prop := scope ≠ [] → expanding = []

theorem ScopeOrStack.entered {expanding : List String} (h : ScopeOrStack expanding scope)
    (e : TypeExpr) : ScopeOrStack (entered expanding e) (innerScope scope e) := by
  unfold Expansion.entered innerScope
  cases hid : identity? e with
  | none => simpa using h
  | some identity =>
    intro hne
    exact absurd rfl hne

theorem ScopeOrStack.of_mem_typeVisits {depth : Nat} {expanding texts : List String}
    {e : TypeExpr} {o : Occurrence} (h : ScopeOrStack expanding scope)
    (hv : .type texts o ∈ typeVisits provider guard depth expanding scope e) :
    ScopeOrStack texts o.scope := by
  induction depth generalizing expanding scope e with
  | zero => exact absurd hv List.not_mem_nil
  | succ depth ih =>
    rw [typeVisits] at hv
    rcases List.mem_cons.mp hv with hhead | hinside
    · cases hhead
      exact h
    · split at hinside
      · obtain ⟨part, -, hpart⟩ := exists_partStarted_of_mem_partVisits hinside
        exact ih (h.entered e) hpart
      · exact absurd hinside List.not_mem_nil

theorem scopeOrStack_nil : ScopeOrStack [] scope := fun _ => rfl

/-- To have type parameters in scope is to have them made opaque: a fresh expansion comes to the
    same, at every depth and under every policy. It and the description of a function turn to types
    with type parameters in scope only while no type is being expanded. -/
theorem scope_is_opaque (p : Package) (guard : Option CyclePolicy) (depth : Nat)
    (scope : List String) (e : TypeExpr) :
    typeDefinition p.provider guard depth [] scope e =
        typeDefinition p.provider guard depth [] [] (e.substitute scope []) ∧
      (∀ expanding o, .type expanding o ∈ typeVisits p.provider guard depth [] scope e →
        o.scope ≠ [] → expanding = []) ∧
      ∀ f expanding o, .type expanding o ∈ functionVisits p.provider guard depth f →
        o.scope ≠ [] → expanding = [] := by
  refine ⟨(typeDefinition_substitute depth e).symm, ?_, ?_⟩
  · intro expanding o hv
    exact scopeOrStack_nil.of_mem_typeVisits hv
  · intro f expanding o hv
    obtain ⟨q, -, hq⟩ := exists_started_of_mem_fieldVisits hv
    exact scopeOrStack_nil.of_mem_typeVisits hq

end Expansion

end CallSchema
