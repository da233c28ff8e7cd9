import CallSchema.Tag
import CallSchema.Text.Digit

/-!
Failures of loading a package and of translating a function, with their texts.

* `LoadError.message` and `SchemaError.message` are the texts.
* `SchemaError.kind` looks through the wrapper that names the parameter (`kind_parameter`).
* `SchemaError.chain` is the text of an error followed by those of its causes, as a command reports
  them.
* `bind_eq_ok` and `bind_eq_error` take apart the result of one computation after another.
-/

namespace CallSchema

/-- Why a path, or standard output, could not be read or written. -/
inductive FileError where
  | notFound
  | notDirectory
  | isDirectory
  | notUtf8
  /-- Anything else for which the operating system refuses, in its own words. -/
  | refused (reason : String)
deriving Repr, DecidableEq

/-- The text of the operating system, with its error number. -/
def FileError.message : FileError → String
  | notFound => "No such file or directory (os error 2)"
  | notDirectory => "Not a directory (os error 20)"
  | isDirectory => "Is a directory (os error 21)"
  | notUtf8 => "stream did not contain valid UTF-8"
  | refused reason => reason

/-- Why a package could not be loaded. -/
inductive LoadError where
  /-- A directory or file could not be read. -/
  | unreadable (path : String) (cause : FileError)
  /-- No file of the directory counts as Go source. -/
  | noSources (dir : String)
  /-- A file is not Go; the line is counted from one. -/
  | badSyntax (file : String) (line : Nat) (detail : String)
deriving Repr, DecidableEq

/-- The text of the error. -/
def LoadError.message : LoadError → String
  | unreadable path cause => "IO error reading " ++ path ++ ": " ++ cause.message
  | noSources dir => "no Go source files in " ++ dir
  | badSyntax file line detail =>
    "Parse failed for " ++ file ++ ":" ++ Text.decimal line ++ ": " ++ detail

/-- The causes of a load error, outermost first. -/
def LoadError.causes : LoadError → List String
  | unreadable _ cause => [cause.message]
  | _ => []

/-- Why a function could not be translated. -/
inductive SchemaError where
  | functionNotFound (name : String)
  /-- Several functions have the name; each location is a path and a line. -/
  | ambiguousFunction (name : String) (locations : List (String × Nat))
  /-- The declarations could not be provided. -/
  | provider (cause : LoadError)
  | tagSyntax (field : String) (reason : Tag.TagError)
  | unresolvedType (name : String)
  | recursiveType (name : String)
  /-- The error arose inside the parameter of the given name. -/
  | parameter (name : String) (cause : SchemaError)
deriving Repr, DecidableEq

/-- The classes of translation errors. -/
inductive ErrorKind where
  | notFound
  | ambiguous
  | provider
  | tagSyntax
  | typeResolution
  | recursiveType
deriving Repr, DecidableEq

namespace SchemaError

/-- A location as `path:line`. -/
def location (l : String × Nat) : String := l.1 ++ ":" ++ Text.decimal l.2

/-- The text of the error. -/
def message : SchemaError → String
  | functionNotFound name => "function not found: " ++ name
  | ambiguousFunction name locations =>
    "function '" ++ name ++ "' is declared more than once (at "
      ++ String.intercalate ", " (locations.map location) ++ ")"
  | provider cause => "source analysis failed: " ++ cause.message
  | tagSyntax field reason => "malformed tag on '" ++ field ++ "': " ++ reason.message
  | unresolvedType name => "cannot resolve type '" ++ name ++ "'"
  | recursiveType name => "recursive type '" ++ name ++ "' cannot be expanded"
  | parameter name cause => "issue parsing parameter '" ++ name ++ "': " ++ cause.message

/-- The class of the innermost error. -/
def kind : SchemaError → ErrorKind
  | functionNotFound _ => .notFound
  | ambiguousFunction _ _ => .ambiguous
  | provider _ => .provider
  | tagSyntax _ _ => .tagSyntax
  | unresolvedType _ => .typeResolution
  | recursiveType _ => .recursiveType
  | parameter _ cause => cause.kind

@[simp] theorem kind_parameter (name : String) (e : SchemaError) :
    (parameter name e).kind = e.kind := rfl

/-- The parameter that the error arose in. -/
def parameter? : SchemaError → Option String
  | parameter name _ => some name
  | _ => none

/-- The texts of the error and of its causes, outermost first. -/
def chain : SchemaError → List String
  | provider cause => (provider cause).message :: cause.message :: cause.causes
  | parameter name cause => (parameter name cause).message :: cause.chain
  | e => [e.message]

end SchemaError

/-! ## Computations that may fail -/

theorem bind_eq_ok {ε α β : Type} {x : Except ε α} {f : α → Except ε β} {b : β} :
    x >>= f = .ok b ↔ ∃ a, x = .ok a ∧ f a = .ok b := by
  cases x with
  | ok a => exact ⟨fun h => ⟨a, rfl, h⟩, fun ⟨_, ha, h⟩ => by cases ha; exact h⟩
  | error e => exact ⟨nofun, nofun⟩

theorem bind_eq_error {ε α β : Type} {x : Except ε α} {f : α → Except ε β} {e : ε} :
    x >>= f = .error e ↔ x = .error e ∨ ∃ a, x = .ok a ∧ f a = .error e := by
  cases x with
  | ok a => exact ⟨fun h => .inr ⟨a, rfl, h⟩, fun | .inr ⟨_, ha, h⟩ => by cases ha; exact h⟩
  | error e' =>
    exact ⟨fun h => .inl (by cases h; rfl), fun | .inl h => by cases h; rfl⟩

theorem eq_ok_of_mem_toOption {ε α : Type} {x : Except ε α} {a : α} (h : a ∈ x.toOption) :
    x = .ok a := by
  cases x with
  | ok b => exact congrArg Except.ok (Option.some.inj h)
  | error e => cases h

end CallSchema
