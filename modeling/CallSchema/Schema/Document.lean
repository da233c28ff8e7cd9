import CallSchema.Json.Reader
import CallSchema.Schema.Definition

/-!
Schemas as JSON documents.

* `Definition.toJson` writes the keys of a node in a fixed order and leaves out all that is empty.
* `Definition.ofJson?` restores what was left out. It ignores unknown keys, refuses a known key that
  stands twice, and follows at most `nestingLimit` levels of objects and arrays.
* `FunctionDetails.render` is the document that is handed out.
-/

namespace CallSchema

/-! ## Writing -/

/-- A member of a document, unless it is left out. -/
def memberUnless (empty : Bool) (key : String) (value : Json) : List (String × Json) :=
  if empty then [] else [(key, value)]

/-- A list of strings. -/
def Json.strings (values : List String) : Json := .array (values.map .string)

namespace Definition

mutual

/-- The document of a node. -/
def toJson : Definition → Json
  | ⟨type, description, enumValues, properties, required, items⟩ =>
    .object <|
      [("type", .string type.word)]
        ++ memberUnless description.isEmpty "description" (.string description)
        ++ memberUnless enumValues.isEmpty "enum" (.strings enumValues)
        ++ memberUnless properties.isEmpty "properties" (.object (propertiesToJson properties))
        ++ memberUnless required.isEmpty "required" (.strings required)
        ++ itemsToJson items
termination_by structural d => d

/-- The documents of the properties. -/
def propertiesToJson : List (String × Definition) → List (String × Json)
  | [] => []
  | property :: rest => propertyToJson property :: propertiesToJson rest
termination_by structural ps => ps

/-- The document of one property. -/
def propertyToJson : String × Definition → String × Json
  | (name, d) => (name, toJson d)
termination_by structural p => p

/-- The member for the elements of a node. -/
def itemsToJson : Option Definition → List (String × Json)
  | none => []
  | some d => [("items", toJson d)]
termination_by structural o => o

end

end Definition

/-- The document of a function. -/
def FunctionDetails.toJson (f : FunctionDetails) : Json :=
  .object [("name", .string f.name), ("description", .string f.description),
    ("parameters", f.parameters.toJson)]

/-- The text of the document, ended by a line feed. -/
def FunctionDetails.render (f : FunctionDetails) (layout : Json.Layout) : String :=
  f.toJson.text layout ++ "\n"

/-! ## Reading -/

namespace Json

/-- How many levels of objects and arrays a document may have. -/
def nestingLimit : Nat := 127

/-- The value of the only member with the given key: nothing if there is none, and a failure if
    there are several. -/
def member? (members : List (String × Json)) (key : String) : Option (Option Json) :=
  match members.filter (·.1 == key) with
  | [] => some none
  | [(_, value)] => some (some value)
  | _ => none

/-- The values of the given keys in a record. A record is an object, in which other keys may stand,
    or an array of the values in the order of the keys, which may end early. -/
def record? (keys : List String) : Json → Option (List (Option Json))
  | .object members => keys.mapM (member? members)
  | .array items =>
    if items.length ≤ keys.length then
      some (items.map some ++ List.replicate (keys.length - items.length) none)
    else none
  | _ => none

/-- The value of a string. -/
def string? : Json → Option String
  | .string value => some value
  | _ => none

/-- The values of an array of strings, for which one level must be left. -/
def strings? : (levels : Nat) → Json → Option (List String)
  | _ + 1, .array items => items.mapM string?
  | _, _ => none

/-- What a value that may be missing is read as. -/
def orDefault {α : Type} (read : Json → Option α) (default : α) : Option Json → Option α
  | none => some default
  | some j => read j

end Json

/-- The type that a value names: by its word, or by an object with the word as only key and no
    value. -/
def DataType.ofJson? : (levels : Nat) → Json → Option DataType
  | _, .string word => ofWord? word
  | _ + 1, .object [(word, .null)] => ofWord? word
  | _, _ => none

namespace Definition

/-- The keys of a node in their order. -/
def keys : List String := ["type", "description", "enum", "properties", "required", "items"]

/-- The properties that the members of an object stand for. -/
def ofMembers (read : Json → Option Definition) (members : List (String × Json)) :
    Option (List (String × Definition)) :=
  members.foldlM (fun properties (name, j) => (read j).map fun d => upsert name d properties) []

/-- The elements' schema; `null` stands for none. -/
def items? (read : Json → Option Definition) : Json → Option (Option Definition)
  | .null => some none
  | j => (read j).map some

mutual

/-- The node that a document stands for, of which at most `levels` levels are followed. -/
def ofJson? : (levels : Nat) → Json → Option Definition
  | 0, _ => none
  | n + 1, j => do
    match ← Json.record? keys j with
    | [some type, description, enumValues, properties, required, items] =>
      let type ← DataType.ofJson? n type
      let description ← Json.orDefault Json.string? "" description
      let enumValues ← Json.orDefault (Json.strings? n) [] enumValues
      let properties ← Json.orDefault (properties? n) [] properties
      let required ← Json.orDefault (Json.strings? n) [] required
      let items ← Json.orDefault (items? (ofJson? n)) none items
      return { type, description, enumValues, properties, required, items }
    | _ => none
termination_by structural levels => levels

/-- The properties that an object stands for, which is a level of its own. -/
def properties? : (levels : Nat) → Json → Option (List (String × Definition))
  | n + 1, .object members => ofMembers (ofJson? n) members
  | _, _ => none
termination_by structural levels => levels

end

/-- The node that a text writes. -/
def read? (text : String) : Option Definition := do
  ofJson? Json.nestingLimit (← Json.read? text)

/-- The text of a node in one line. -/
def text (d : Definition) : String := d.toJson.text .compact

end Definition

namespace FunctionDetails

/-- The keys of a function's document in their order. -/
def keys : List String := ["name", "description", "parameters"]

/-- The function that a document describes. -/
def ofJson? (j : Json) : Option FunctionDetails := do
  match ← Json.record? keys j with
  | [some name, some description, some parameters] =>
    let name ← Json.string? name
    let description ← Json.string? description
    let parameters ← Definition.ofJson? (Json.nestingLimit - 1) parameters
    return { name, description, parameters }
  | _ => none

/-- The function that a text describes. -/
def read? (text : String) : Option FunctionDetails := do ofJson? (← Json.read? text)

end FunctionDetails

end CallSchema
