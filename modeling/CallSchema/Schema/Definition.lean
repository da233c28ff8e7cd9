import CallSchema.Entries

/-!
Schemas of values: one node per type, with its properties or items below it.

* `insertProperty` replaces a property in place or appends it, and keeps `required` in step
  (`lookup_upsert_self`, `mem_required_insertProperty`).
* `singleProperty?` is the only property of a node, if there is exactly one; `takeSingle` hands
  back the node itself if there is not.
-/

namespace CallSchema

/-- The `type` of a schema node. -/
inductive DataType where
  | object
  | array
  | string
  | integer
  | number
  | boolean
  /-- A type that no schema describes. -/
  | null
deriving Repr, DecidableEq, Inhabited

/-- The word for the type. -/
def DataType.word : DataType → String
  | .object => "object"
  | .array => "array"
  | .string => "string"
  | .integer => "integer"
  | .number => "number"
  | .boolean => "boolean"
  | .null => "null"

/-- All types of schema nodes. -/
def DataType.all : List DataType :=
  [.object, .array, .string, .integer, .number, .boolean, .null]

/-- The type with the given word. -/
def DataType.ofWord? (word : String) : Option DataType := all.find? (·.word == word)

theorem DataType.ofWord?_word (t : DataType) : ofWord? t.word = some t := by
  cases t <;> rfl

/-- A schema node. -/
structure Definition where
  type : DataType
  description : String := ""
  /-- The allowed values; none are listed if any value of the type is allowed. -/
  enumValues : List String := []
  /-- The schemas of the members, in the order of their first insertion. -/
  properties : List (String × Definition) := []
  /-- The names of the members that must be present. -/
  required : List String := []
  /-- The schema of the elements. -/
  items : Option Definition := none
deriving Repr, Inhabited

namespace Definition

/-- A node without properties. -/
def object : Definition := { type := .object }

/-- A leaf for a type that no schema describes. -/
def null : Definition := { type := .null }

/-- A node for sequences of the given elements. -/
def array (items : Definition) : Definition := { type := .array, items := some items }

/-- The node with the description replaced. -/
def withDescription (d : Definition) (text : String) : Definition := { d with description := text }

/-- The node with the allowed values replaced. -/
def withEnum (d : Definition) (values : List String) : Definition := { d with enumValues := values }

/-- The list of required names after the insertion of `name`: a required name is listed once, at
    the place of its first such insertion, and an optional one not at all. -/
def requiredAfter (names : List String) (name : String) (isRequired : Bool) : List String :=
  if isRequired then if names.contains name then names else names ++ [name]
  else names.filter (· != name)

/-- Adds a property or replaces the one of that name. -/
def insertProperty (d : Definition) (name : String) (value : Definition) (isRequired : Bool) :
    Definition :=
  { d with
    required := requiredAfter d.required name isRequired
    properties := upsert name value d.properties }

@[simp] theorem insertProperty_type (d : Definition) (name : String) (value : Definition)
    (isRequired : Bool) : (d.insertProperty name value isRequired).type = d.type := rfl

@[simp] theorem insertProperty_enumValues (d : Definition) (name : String) (value : Definition)
    (isRequired : Bool) : (d.insertProperty name value isRequired).enumValues = d.enumValues := rfl

@[simp] theorem insertProperty_items (d : Definition) (name : String) (value : Definition)
    (isRequired : Bool) : (d.insertProperty name value isRequired).items = d.items := rfl

@[simp] theorem insertProperty_properties (d : Definition) (name : String) (value : Definition)
    (isRequired : Bool) :
    (d.insertProperty name value isRequired).properties = upsert name value d.properties := rfl

@[simp] theorem insertProperty_required (d : Definition) (name : String) (value : Definition)
    (isRequired : Bool) :
    (d.insertProperty name value isRequired).required =
      requiredAfter d.required name isRequired := rfl

theorem mem_requiredAfter {names : List String} {name other : String} {isRequired : Bool} :
    other ∈ requiredAfter names name isRequired ↔
      if other = name then isRequired = true else other ∈ names := by
  cases isRequired <;> by_cases h : other = name <;> simp [requiredAfter, h]
  · split <;> simp_all
  · split <;> simp [h]

theorem nodup_requiredAfter {names : List String} (name : String) (isRequired : Bool)
    (h : names.Nodup) : (requiredAfter names name isRequired).Nodup := by
  unfold requiredAfter
  split
  · split
    · exact h
    · rename_i hc
      refine List.nodup_append.mpr ⟨h, by simp, ?_⟩
      rintro a ha b hb rfl
      simp_all
  · exact h.filter _

/-- A name is required after its insertion exactly if it was inserted as required. -/
theorem mem_required_insertProperty (d : Definition) (name : String) (value : Definition)
    (isRequired : Bool) :
    name ∈ (d.insertProperty name value isRequired).required ↔ isRequired = true := by
  simp [mem_requiredAfter]

/-- The only property, if there is exactly one. -/
def singleProperty? (d : Definition) : Option Definition :=
  match d.properties with
  | [(_, only)] => some only
  | _ => none

/-- Takes the only property out of the node. A node with none or with several is handed back. -/
def takeSingle (d : Definition) : Except Definition Definition :=
  match d.singleProperty? with
  | some only => .ok only
  | none => .error d

end Definition

/-- What a function-calling interface is told about a function. -/
structure FunctionDetails where
  name : String
  description : String
  parameters : Definition
deriving Repr, Inhabited

end CallSchema
