import CallSchema.Lookup
import CallSchema.Resolve
import CallSchema.Schema.Definition

/-!
Expanding types into schemas.

* `typeDefinition` expands a type expression. A named type whose expansion is in progress on the way
  down is not entered again, which is what ends the expansion of recursive types.
* `structDefinition` gives every field that has a name a property, in order; `parameters` does so
  for the parameters of a function, and a function of one parameter is described by that alone.
* `describeFunction` finds a function and describes it.

An expansion need not end: a generic type may contain itself with ever larger arguments. All
functions here therefore take a number of types that may be entered on the way down, and give no
result if it does not suffice; a larger number never changes a result.
-/

namespace CallSchema

/-- A result that may be an error, or missing because the expansion went too deep. -/
abbrev Expansion := ExceptT SchemaError Option

namespace Expansion

/-- The expansion went too deep. -/
def tooDeep {α : Type} : Expansion α := ExceptT.mk none

/-- A finished result. -/
def finished {α : Type} (result : Except SchemaError α) : Expansion α := ExceptT.mk (some result)

/-- The same with another error. -/
def mapError {α : Type} (f : SchemaError → SchemaError) (x : Expansion α) : Expansion α :=
  ExceptT.mk ((ExceptT.run x).map (Except.mapError f))

/-- The schema type of a basic type. Addresses and complex numbers have none. -/
def basicType : BasicKind → DataType
  | .bool => .boolean
  | .int | .int8 | .int16 | .int32 | .int64 => .integer
  | .uint | .uint8 | .uint16 | .uint32 | .uint64 => .integer
  | .float32 | .float64 => .number
  | .string => .string
  | .uintptr | .complex64 | .complex128 => .null

/-- The tags of a field or parameter, reported under `label`. -/
def tagsOf (f : FieldDecl) (label : String) : Except SchemaError FieldTags :=
  match f.tag with
  | none => .ok {}
  | some literal => (Tag.parse literal).mapError (.tagSyntax label)

theorem tagsOf_none {f : FieldDecl} (h : f.tag = none) (label : String) :
    tagsOf f label = .ok {} := by
  rw [tagsOf, h]

theorem tagsOf_ok {f : FieldDecl} {literal : String} {tags : FieldTags} (h : f.tag = some literal)
    (hp : Tag.parse literal = .ok tags) (label : String) : tagsOf f label = .ok tags := by
  simp only [tagsOf, h, hp]
  rfl

theorem tagsOf_error {f : FieldDecl} {literal : String} {reason : Tag.TagError}
    (h : f.tag = some literal) (hp : Tag.parse literal = .error reason) (label : String) :
    tagsOf f label = .error (.tagSyntax label reason) := by
  simp only [tagsOf, h, hp]
  rfl

/-- Tags that can be read are those of the literal, if there is one. -/
theorem tagsOf_eq_ok {f : FieldDecl} {label : String} {tags : FieldTags}
    (h : tagsOf f label = .ok tags) :
    (f.tag = none ∧ tags = {}) ∨
      ∃ literal, f.tag = some literal ∧ Tag.parse literal = .ok tags := by
  cases ht : f.tag with
  | none =>
    rw [tagsOf_none ht, Except.ok.injEq] at h
    exact .inl ⟨rfl, h.symm⟩
  | some literal =>
    cases hp : Tag.parse literal with
    | error reason =>
      rw [tagsOf_error ht hp] at h
      exact absurd h (by simp)
    | ok parsed =>
      rw [tagsOf_ok ht hp, Except.ok.injEq] at h
      exact .inr ⟨literal, rfl, h ▸ hp⟩

/-- Tags that cannot be read are an error under the label. -/
theorem tagsOf_eq_error {f : FieldDecl} {label : String} {e : SchemaError}
    (h : tagsOf f label = .error e) : ∃ reason, e = .tagSyntax label reason := by
  cases ht : f.tag with
  | none =>
    rw [tagsOf_none ht] at h
    exact absurd h (by simp)
  | some literal =>
    cases hp : Tag.parse literal with
    | error reason =>
      rw [tagsOf_error ht hp, Except.error.injEq] at h
      exact ⟨reason, h.symm⟩
    | ok parsed =>
      rw [tagsOf_ok ht hp] at h
      exact absurd h (by simp)

/-- Whether tags can be read does not depend on the label. -/
theorem tagsOf_eq_ok_of_eq_ok {f : FieldDecl} {label : String} {tags : FieldTags} (label' : String)
    (h : tagsOf f label = .ok tags) : tagsOf f label' = .ok tags := by
  rcases tagsOf_eq_ok h with ⟨ht, rfl⟩ | ⟨literal, ht, hp⟩
  · exact tagsOf_none ht label'
  · exact tagsOf_ok ht hp label'

/-- The schema of a field or parameter, given the schema of its type: a variadic one is a sequence,
    and its comments and allowed values replace those of the type. -/
def decorate (f : FieldDecl) (tags : FieldTags) (d : Definition) : Definition :=
  let d := if f.variadic then .array d else d
  let text := f.comments.describe
  let d := if text.isEmpty then d else d.withDescription text
  match tags.enumValues with
  | none => d
  | some values => d.withEnum values

/-- The schema of a field or parameter, and whether it is required. -/
def field (define : TypeExpr → Expansion Definition) (f : FieldDecl) (label : String) :
    Expansion (Definition × Bool) := do
  let tags ← finished (tagsOf f label)
  let d ← define f.type
  return (decorate f tags d, tags.required)

/-! ## Structs -/

/-- The names of a field that become properties: those that are not blank. -/
def fieldNames (f : FieldDecl) : List String := f.names.filter (· != "_")

/-- Adds one property under each of the names. -/
def insertAll (object : Definition) (names : List String) (d : Definition) (isRequired : Bool) :
    Definition :=
  names.foldl (fun object name => object.insertProperty name d isRequired) object

/-- Adds the properties of the fields in order. A field without a name is passed over, tag and type
    included. -/
def insertFields (define : TypeExpr → Expansion Definition) (object : Definition) :
    List FieldDecl → Expansion Definition
  | [] => pure object
  | f :: fs =>
    match fieldNames f with
    | [] => insertFields define object fs
    | label :: names => do
      let (d, isRequired) ← field define f label
      insertFields define (insertAll object (label :: names) d isRequired) fs

/-- The schema of a struct. -/
def structDefinition (define : TypeExpr → Expansion Definition) (fields : List FieldDecl) :
    Expansion Definition :=
  insertFields define .object fields

/-! ## Types -/

/-- The text by which a named type is known while it is being expanded. -/
def identity? (e : TypeExpr) : Option String :=
  match e with
  | .named _ _ => some e.display
  | _ => none

theorem exists_eq_named {e : TypeExpr} {identity : String} (h : identity? e = some identity) :
    ∃ name args, e = .named name args := by
  cases e with
  | named name args => exact ⟨name, args, rfl⟩
  | _ => simp [identity?] at h

/-- What a recursive reference becomes. -/
def recursiveReference (policy : CyclePolicy) (identity : String) : Except SchemaError Definition :=
  match policy with
  | .error => .error (.recursiveType identity)
  | .null => .ok (Definition.null.withDescription ("recursive reference to " ++ identity))

/-- What the guard against recursive types makes of an expression, if it does not let it pass.
    `guard` is the policy for recursive references; without one, every expression passes. -/
def guarded (guard : Option CyclePolicy) (expanding : List String) (e : TypeExpr) :
    Option (Except SchemaError Definition) := do
  let policy ← guard
  let identity ← identity? e
  if expanding.contains identity then return recursiveReference policy identity else none

/-- Whatever the guard makes of an expression is a recursive reference. -/
theorem guarded_eq_some {guard : Option CyclePolicy} {expanding : List String} {e : TypeExpr}
    {r : Except SchemaError Definition} (h : guarded guard expanding e = some r) :
    ∃ policy identity, guard = some policy ∧ identity? e = some identity ∧
      identity ∈ expanding ∧ r = recursiveReference policy identity := by
  unfold guarded at h
  obtain ⟨policy, hg, h⟩ := Option.bind_eq_some_iff.mp h
  obtain ⟨identity, hi, h⟩ := Option.bind_eq_some_iff.mp h
  split at h
  · rename_i hc
    exact ⟨policy, identity, hg, hi, by simpa using hc, (Option.some.inj h).symm⟩
  · simp at h

theorem guarded_of_mem {policy : CyclePolicy} {expanding : List String} {e : TypeExpr}
    {identity : String} (hi : identity? e = some identity) (hm : identity ∈ expanding) :
    guarded (some policy) expanding e = some (recursiveReference policy identity) := by
  simp [guarded, hi, hm]

theorem notMem_of_guarded_eq_none {policy : CyclePolicy} {expanding : List String} {e : TypeExpr}
    {identity : String} (hi : identity? e = some identity)
    (h : guarded (some policy) expanding e = none) : identity ∉ expanding := fun hm =>
  Option.some_ne_none _ ((guarded_of_mem hi hm).symm.trans h)

/-- The guard lets an expression pass whose text is not that of a type on the way down. -/
theorem guarded_eq_none {guard : Option CyclePolicy} {expanding : List String} {e : TypeExpr}
    (h : ∀ identity, identity? e = some identity → identity ∉ expanding) :
    guarded guard expanding e = none := by
  cases hg : guarded guard expanding e with
  | none => rfl
  | some r =>
    obtain ⟨_, identity, -, hi, hm, -⟩ := guarded_eq_some hg
    exact absurd hm (h identity hi)

/-- The identities of the types on the way down to what stands in the given expression. -/
def entered (expanding : List String) (e : TypeExpr) : List String :=
  (identity? e).toList ++ expanding

/-- The type parameters in whose scope the insides of an expression stand: the body of a named type
    stands in no type parameter's scope. -/
def innerScope (scope : List String) (e : TypeExpr) : List String :=
  if (identity? e).isSome then [] else scope

/-- The schema of what a type is underneath, given the schemas of the types in it. -/
def resolvedDefinition (define : TypeExpr → Expansion Definition) :
    ResolvedType → Expansion Definition
  | .basic kind => pure { type := basicType kind }
  | .unsupported _ => pure .null
  | .pointer pointee => define pointee
  | .sequence element => .array <$> define element
  | .struct fields => structDefinition define fields

/-- The schema of a type expression in a scope of type parameters. `expanding` holds the identities
    of the named types on the way down. -/
def typeDefinition (provider : Provider) (guard : Option CyclePolicy) :
    (depth : Nat) → (expanding scope : List String) → TypeExpr → Expansion Definition
  | 0, _, _, _ => tooDeep
  | depth + 1, expanding, scope, e =>
    -- A caught reference is not resolved again: its type was when it was entered.
    match guarded guard expanding e with
    | some result => finished result
    | none => do
      let type ← finished (provider.resolve scope e)
      resolvedDefinition
        (typeDefinition provider guard depth (entered expanding e) (innerScope scope e)) type

/-! ## Functions -/

/-- The name of the entry at a position of the parameter list. A blank one is named after its
    position. -/
def parameterName (position : Nat) (name : String) : String :=
  if name = "_" then "arg" ++ Text.decimal position else name

/-- The names of one group of parameters, of which `position` entries stand before it. -/
def parameterNames (position : Nat) : List String → List String
  | [] => []
  | name :: names => parameterName position name :: parameterNames (position + 1) names

/-- The entries of a group in the flattened parameter list: one without a name counts as well. -/
def entries (p : FieldDecl) : List String := if p.names.isEmpty then ["_"] else p.names

/-- The schema of a group of parameters; an error names the group. -/
def parameter (define : TypeExpr → Expansion Definition) (p : FieldDecl) (label : String) :
    Expansion Definition :=
  mapError (.parameter label) (Prod.fst <$> field define p label)

/-- Adds the properties of the parameters in order, all of them required. -/
def insertParameters (define : TypeExpr → Expansion Definition) (position : Nat)
    (object : Definition) : List FieldDecl → Expansion Definition
  | [] => pure object
  | p :: ps =>
    -- There is always a name, since a group without names has one entry.
    match parameterNames position (entries p) with
    | [] => insertParameters define position object ps
    | label :: names => do
      let d ← parameter define p label
      insertParameters define (position + (entries p).length)
        (insertAll object (label :: names) d true) ps

/-- The schema of a parameter list. -/
def parameters (define : TypeExpr → Expansion Definition) (ps : List FieldDecl) :
    Expansion Definition := do
  let object ← insertParameters define 0 .object ps
  return object.singleProperty?.getD object

/-- The description of a function. -/
def function (provider : Provider) (guard : Option CyclePolicy) (depth : Nat) (f : FuncDecl) :
    Expansion FunctionDetails := do
  let ps ← parameters (typeDefinition provider guard depth [] f.typeParams) f.params
  return { name := f.name, description := f.doc.describe, parameters := ps }

end Expansion

/-- Describes the function with the given name, entering at most `depth` types on the way down.
    There is no result if that does not suffice. -/
def describeFunction? (provider : Provider) (depth : Nat) (name : String)
    (options : TranslateOptions) : Option (Except SchemaError FunctionDetails) :=
  match findFunction provider.units name options.duplicates with
  | .error e => some (.error e)
  | .ok f => ExceptT.run (Expansion.function provider (some options.cycles) depth f)

/-- How many types a command enters on the way down. A type that grows without end as it contains
    itself goes deeper, and so does one that is written with more types inside each other. -/
def depthLimit : Nat := 1000000

end CallSchema
