import CallSchema.Policy
import CallSchema.Settings.Variable
import CallSchema.Toml

/-!
Settings of a command, in layers.

* From the lowest to the highest the layers are the built-in values, the file of the user, the file
  of the project and the environment. They are merged key by key before any value is looked at, so
  that a bad value which a higher layer covers does no harm.
* A setting that no layer makes has its built-in value, and keys without a meaning are ignored.
-/

namespace CallSchema

open Settings (Value)

/-- What can be set. -/
structure Settings where
  /-- Whether test files belong to the package. -/
  includeTests : Bool := false
  options : TranslateOptions := {}
deriving Repr, DecidableEq, Inhabited

/-- Why the settings could not be loaded. -/
inductive SettingsError where
  /-- The file of the user or of the project is no TOML. -/
  | badFile
  /-- A setting has a value of the wrong kind or an unknown word. -/
  | badValue
deriving Repr, DecidableEq

/-- The text of the error. -/
def SettingsError.message : SettingsError → String
  | badFile => "Configuration error: invalid TOML"
  | badValue => "Configuration error: invalid value"

namespace Settings

/-! ## Reading settings from values -/

/-- A truth value. -/
def bool? : Value → Option Bool
  | .bool b => some b
  | _ => none

/-- A word that stands for something. -/
def word? {α : Type} (ofWord? : String → Option α) : Value → Option α
  | .string s => ofWord? s
  | _ => none

/-- The member of a group of settings with the given name and place: a group is a table with names,
    or a list with the members in order. -/
def member? (group : Value) (name : String) (place : Nat) : Option Value :=
  match group with
  | .array items => items[place]?
  | v => (v.entries?.getD []).lookup name

/-- Whether the value can be a group of settings. -/
def isGroup : Value → Bool
  | .array _ => true
  | v => v.entries?.isSome

/-- A setting in a group, or its built-in value if no layer makes it. -/
def setting {α : Type} (entries : List (String × Value)) (group name : String) (place : Nat)
    (read? : Value → Option α) (default : α) : Except SettingsError α :=
  match entries.lookup group with
  | none => .ok default
  | some v =>
    if isGroup v then
      match member? v name place with
      | none => .ok default
      | some m => (read? m).elim (.error .badValue) .ok
    else .error .badValue

/-- The settings that a table makes. -/
def ofEntries (entries : List (String × Value)) : Except SettingsError Settings := do
  let includeTests ← setting entries "source" "include_tests" 0 bool? false
  let cycles ← setting entries "schema" "cycles" 0 (word? CyclePolicy.ofWord?) .null
  let duplicates ← setting entries "schema" "duplicates" 1 (word? DuplicatePolicy.ofWord?) .first
  return { includeTests, options := { cycles, duplicates } }

/-! ## Layers -/

/-- The built-in values as a layer. -/
def builtin : List (String × Value) :=
  [("source", .table [("include_tests", .bool false)]),
   ("schema", .table [("cycles", .string CyclePolicy.null.word),
     ("duplicates", .string DuplicatePolicy.first.word)])]

/-- The layer of a file; no file is an empty layer. -/
def fileLayer (contents : Option ByteArray) : Except SettingsError (List (String × Value)) :=
  match contents with
  | none => .ok []
  | some bytes => ((String.fromUTF8? bytes).bind Toml.read?).elim (.error .badFile) .ok

/-- The table of all layers, each laid over the ones before. -/
def merged (layers : List (List (String × Value))) : List (String × Value) :=
  layers.foldl Value.mergeEntries builtin

/-- The settings from the contents of the user's file and the project's file, where they exist, and
    the environment. -/
def load (userFile projectFile : Option ByteArray) (environment : List (String × String)) :
    Except SettingsError Settings := do
  let user ← fileLayer userFile
  let project ← fileLayer projectFile
  ofEntries (merged [user, project, Variable.entries environment])

end Settings

end CallSchema
