import CallSchema.Proofs.Outcome

/-!
Expansions on one shared stack.

A `Walk` has a single stack with the texts of the types that are being expanded. A named type pushes
its text before its insides are expanded and takes it off afterwards (`Walk.within`), and all else
finds the stack as the last step left it, also after an error.

1. `Keeps x y`: from every stack, the walk `x` comes to what the expansion `y` comes to that is told
   the stack, and leaves the stack as it was. Each way of putting walks together keeps this.
2. `keeps_typeDefinition`, `keeps_function`: so do the walks of a type and of a function, at every
   depth. Nothing that is expanded can tell what has been expanded before it.
-/

namespace CallSchema

/-- A result with the stack that is left behind, or none because the walk went too deep. -/
abbrev Walk := ExceptT SchemaError (StateT (List String) Option)

namespace Walk

open Expansion (tagsOf decorate fieldNames insertAll guarded identity? innerScope basicType
  parameterNames entries)

variable {α β : Type}

/-- What the walk comes to from a stack, and the stack it leaves. -/
def runOn (x : Walk α) (stack : List String) : Option (Except SchemaError α × List String) :=
  StateT.run (ExceptT.run x) stack

def tooDeep : Walk α := ExceptT.mk fun _ => none

def finished (r : Except SchemaError α) : Walk α := ExceptT.mk (pure r)

def mapError (f : SchemaError → SchemaError) (x : Walk α) : Walk α :=
  ExceptT.mk (Except.mapError f <$> ExceptT.run x)

/-- Runs `build` while the text, if there is one, is on the stack. An error does not keep the text
    from being taken off. -/
def within (identity : Option String) (build : Walk α) : Walk α :=
  ExceptT.mk do
    modify (identity.toList ++ ·)
    let result ← ExceptT.run build
    modify (List.drop identity.toList.length)
    return result

/-! ## Types -/

def field (define : TypeExpr → Walk Definition) (f : FieldDecl) (label : String) :
    Walk (Definition × Bool) := do
  let tags ← finished (tagsOf f label)
  let d ← define f.type
  return (decorate f tags d, tags.required)

def insertFields (define : TypeExpr → Walk Definition) (object : Definition) :
    List FieldDecl → Walk Definition
  | [] => pure object
  | f :: fs =>
    match fieldNames f with
    | [] => insertFields define object fs
    | label :: names => do
      let (d, isRequired) ← field define f label
      insertFields define (insertAll object (label :: names) d isRequired) fs

/-- The schema of what a type is underneath. Only the types that hold others take their text onto
    the stack. -/
def resolvedDefinition (identity : Option String) (define : TypeExpr → Walk Definition) :
    ResolvedType → Walk Definition
  | .basic kind => pure { type := basicType kind }
  | .unsupported _ => pure .null
  | .pointer pointee => within identity (define pointee)
  | .sequence element => within identity (.array <$> define element)
  | .struct fields => within identity (insertFields define .object fields)

def typeDefinition (provider : Provider) (guard : Option CyclePolicy) :
    (depth : Nat) → (scope : List String) → TypeExpr → Walk Definition
  | 0, _, _ => tooDeep
  | depth + 1, scope, e => do
    match guarded guard (← get) e with
    | some result => finished result
    | none => do
      let type ← finished (provider.resolve scope e)
      resolvedDefinition (identity? e) (typeDefinition provider guard depth (innerScope scope e))
        type

/-! ## Functions -/

def parameter (define : TypeExpr → Walk Definition) (p : FieldDecl) (label : String) :
    Walk Definition :=
  mapError (.parameter label) (Prod.fst <$> field define p label)

def insertParameters (define : TypeExpr → Walk Definition) (position : Nat) (object : Definition) :
    List FieldDecl → Walk Definition
  | [] => pure object
  | p :: ps =>
    match parameterNames position (entries p) with
    | [] => insertParameters define position object ps
    | label :: names => do
      let d ← parameter define p label
      insertParameters define (position + (entries p).length)
        (insertAll object (label :: names) d true) ps

def parameters (define : TypeExpr → Walk Definition) (ps : List FieldDecl) : Walk Definition := do
  let object ← insertParameters define 0 .object ps
  return object.singleProperty?.getD object

def function (provider : Provider) (guard : Option CyclePolicy) (depth : Nat) (f : FuncDecl) :
    Walk FunctionDetails := do
  let ps ← parameters (typeDefinition provider guard depth f.typeParams) f.params
  return { name := f.name, description := f.doc.describe, parameters := ps }

/-! ## Leaving the stack as it was -/

/-- From every stack, the walk comes to what the expansion comes to that is told the stack, and
    leaves the stack as it was. -/
def Keeps (x : Walk α) (y : List String → Expansion α) : Prop :=
  ∀ stack, x.runOn stack = (ExceptT.run (y stack)).map (·, stack)

variable {x : Walk α} {y : List String → Expansion α}

theorem keeps_tooDeep : Keeps (tooDeep : Walk α) fun _ => Expansion.tooDeep := fun _ => rfl

theorem keeps_finished (r : Except SchemaError α) :
    Keeps (finished r) fun _ => Expansion.finished r := fun _ => rfl

theorem keeps_pure (a : α) : Keeps (pure a) fun _ => pure a := fun _ => rfl

theorem runOn_bind (x : Walk α) (f : α → Walk β) (stack : List String) :
    (x >>= f).runOn stack = (x.runOn stack).bind fun (result, left) =>
      match result with
      | .ok a => (f a).runOn left
      | .error e => some (.error e, left) := by
  unfold runOn
  rw [ExceptT.run_bind, StateT.run_bind]
  show Option.bind _ _ = Option.bind _ _
  refine congrArg _ (funext fun (result, left) => ?_)
  cases result <;> rfl

theorem Keeps.bind {f : α → Walk β} {g : α → List String → Expansion β} (hx : Keeps x y)
    (hf : ∀ a, Keeps (f a) (g a)) :
    Keeps (x >>= f) fun stack => y stack >>= fun a => g a stack := by
  intro stack
  rw [runOn_bind, hx stack, ExceptT.run_bind]
  rcases ExceptT.run (y stack) with _ | (e | a)
  · rfl
  · rfl
  · exact hf a stack

theorem Keeps.map (f : α → β) (hx : Keeps x y) : Keeps (f <$> x) fun stack => f <$> y stack := by
  simp only [← bind_pure_comp]
  exact hx.bind fun a => keeps_pure (f a)

theorem Keeps.mapError (f : SchemaError → SchemaError) (hx : Keeps x y) :
    Keeps (mapError f x) fun stack => Expansion.mapError f (y stack) := by
  intro stack
  show Option.bind (x.runOn stack) _ = _
  rw [hx stack]
  show _ = ((ExceptT.run (y stack)).map (Except.mapError f)).map (·, stack)
  rcases ExceptT.run (y stack) with _ | r <;> rfl

/-- What is pushed for a while is gone afterwards, whatever the end. -/
theorem Keeps.within (identity : Option String) (hx : Keeps x y) :
    Keeps (within identity x) fun stack => y (identity.toList ++ stack) := by
  intro stack
  show Option.bind (x.runOn (identity.toList ++ stack)) _ = _
  rw [hx]
  rcases ExceptT.run (y (identity.toList ++ stack)) with _ | r
  · rfl
  · show some (r, (identity.toList ++ stack).drop identity.toList.length) = some (r, stack)
    rw [List.drop_left]

section Functions

variable {define : TypeExpr → Walk Definition}
  {define' : List String → TypeExpr → Expansion Definition}

theorem keeps_field {f : FieldDecl} (label : String)
    (h : Keeps (define f.type) fun stack => define' stack f.type) :
    Keeps (field define f label) fun stack => Expansion.field (define' stack) f label :=
  (keeps_finished (tagsOf f label)).bind fun _ => h.bind fun _ => keeps_pure _

theorem keeps_insertFields (h : ∀ e, Keeps (define e) fun stack => define' stack e)
    (object : Definition) (fs : List FieldDecl) :
    Keeps (insertFields define object fs) fun stack =>
      Expansion.insertFields (define' stack) object fs := by
  induction fs generalizing object with
  | nil => exact keeps_pure object
  | cons f fs ih =>
    cases hn : fieldNames f with
    | nil =>
      simp only [insertFields, Expansion.insertFields, hn]
      exact ih object
    | cons label names =>
      simp only [insertFields, Expansion.insertFields, hn]
      exact (keeps_field label (h f.type)).bind fun value => ih _

theorem keeps_resolvedDefinition (identity : Option String)
    (h : ∀ e, Keeps (define e) fun stack => define' stack e) (type : ResolvedType) :
    Keeps (resolvedDefinition identity define type) fun stack =>
      Expansion.resolvedDefinition (define' (identity.toList ++ stack)) type := by
  cases type with
  | basic kind => exact keeps_pure _
  | unsupported what => exact keeps_pure _
  | pointer pointee => exact (h pointee).within identity
  | sequence element => exact ((h element).map Definition.array).within identity
  | struct fields => exact (keeps_insertFields h .object fields).within identity

theorem keeps_insertParameters (h : ∀ e, Keeps (define e) fun stack => define' stack e)
    (position : Nat) (object : Definition) (ps : List FieldDecl) :
    Keeps (insertParameters define position object ps) fun stack =>
      Expansion.insertParameters (define' stack) position object ps := by
  induction ps generalizing position object with
  | nil => exact keeps_pure object
  | cons p ps ih =>
    obtain ⟨label, names, hn⟩ := Expansion.exists_label position p
    simp only [insertParameters, Expansion.insertParameters, hn]
    have hp : Keeps (parameter define p label) fun stack =>
        Expansion.parameter (define' stack) p label :=
      ((keeps_field label (h p.type)).map Prod.fst).mapError (.parameter label)
    exact hp.bind fun d => ih _ _

end Functions

variable {provider : Provider} {guard : Option CyclePolicy}

/-- The schema of a type is that of the expansion which is told the stack, and the stack is the same
    afterwards. -/
theorem keeps_typeDefinition (depth : Nat) (scope : List String) (e : TypeExpr) :
    Keeps (typeDefinition provider guard depth scope e) fun stack =>
      Expansion.typeDefinition provider guard depth stack scope e := by
  induction depth generalizing scope e with
  | zero => exact keeps_tooDeep
  | succ depth ih =>
    intro stack
    rw [typeDefinition, runOn_bind]
    show (match guarded guard stack e with
      | some result => (finished result : Walk Definition)
      | none => _).runOn stack =
        (ExceptT.run (Expansion.typeDefinition provider guard (depth + 1) stack scope e)).map
          (·, stack)
    cases hg : guarded guard stack e with
    | some result =>
      rw [Expansion.typeDefinition_caught hg]
      exact keeps_finished result stack
    | none =>
      rw [Expansion.typeDefinition_passed hg]
      have hinside := keeps_resolvedDefinition (identity? e) (ih (innerScope scope e))
      exact (keeps_finished (provider.resolve scope e)).bind hinside stack

/-- The description of a function, for which nothing is on the stack. -/
theorem runOn_function (depth : Nat) (f : FuncDecl) :
    (function provider guard depth f).runOn [] =
      (ExceptT.run (Expansion.function provider guard depth f)).map (·, []) := by
  have htypes (e : TypeExpr) : Keeps (typeDefinition provider guard depth f.typeParams e)
      fun stack => Expansion.typeDefinition provider guard depth stack f.typeParams e :=
    keeps_typeDefinition depth f.typeParams e
  have hobject := keeps_insertParameters htypes 0 .object f.params
  have hparameters := hobject.bind fun object => keeps_pure (object.singleProperty?.getD object)
  exact (hparameters.bind fun _ => keeps_pure _) []

end Walk

end CallSchema
