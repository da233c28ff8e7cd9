import CallSchema.Json
import CallSchema.Text.Pieces

/-!
Command-line arguments.

* Options with a value take it after `=`, after their letter, or from the next argument; flags may
  share one dash. Nothing may be given twice, and no argument stands alone.
* `Arguments.parse` goes from left to right. The value of an option is looked at when the next
  option or flag follows, or at the end; an argument that no one knows is reported before that.
-/

namespace CallSchema

open Text

/-- What a command is asked to do. -/
structure Arguments where
  /-- The directory of the package. -/
  src : String := "."
  /-- The name of the function to describe. -/
  func : String
  /-- The file to write, or a dash for standard output. -/
  output : String := "-"
  format : Json.Layout := .indented
  /-- Whether test files belong to the package. -/
  includeTests : Bool := false
  quiet : Bool := false
  verbose : Bool := false
deriving Repr, DecidableEq

/-- Why there is nothing to do for a list of arguments. -/
inductive ArgumentsIssue where
  | missingRequired
  | unknownArgument
  | invalidValue
  | conflict
  | tooManyValues
  /-- The usage is asked for. -/
  | helpRequest
  /-- The version is asked for. -/
  | versionRequest
deriving Repr, DecidableEq

namespace Arguments

/-! ## Options and flags -/

/-- The options that take a value. -/
inductive Setting where
  | src
  | func
  | output
  | format
deriving Repr, DecidableEq

/-- The flags. -/
inductive Flag where
  | includeTests
  | quiet
  | verbose
  | help
  | version
deriving Repr, DecidableEq

/-- The options and flags by their long names. -/
def longNames : List (String × (Setting ⊕ Flag)) :=
  [("src", .inl .src), ("func", .inl .func), ("output", .inl .output), ("format", .inl .format),
   ("include-tests", .inr .includeTests), ("quiet", .inr .quiet), ("verbose", .inr .verbose),
   ("help", .inr .help), ("version", .inr .version)]

/-- The options and flags by their letters. -/
def shortNames : List (Char × (Setting ⊕ Flag)) :=
  [('s', .inl .src), ('o', .inl .output), ('f', .inl .format), ('q', .inr .quiet),
   ('v', .inr .verbose), ('h', .inr .help), ('V', .inr .version)]

/-- The layout that an output format has. -/
def formatOfWord? (word : String) : Option Json.Layout :=
  if word = "json" then some .indented else if word = "raw" then some .compact else none

/-- What was given so far. -/
structure Given where
  /-- The options with their values. -/
  settings : List (Setting × String) := []
  flags : List Flag := []
  /-- The option that came last, and its value if it has come, both not looked at yet. -/
  pending : Option (Setting × Option String) := none

namespace Given

/-- Whether an option may have the value. -/
def accepts : Setting → String → Bool
  | .src, value => !value.isEmpty
  | .func, _ => true
  | .output, value => !value.isEmpty
  | .format, value => (formatOfWord? value).isSome

/-- Gives an option its value. -/
def set (g : Given) (setting : Setting) (value : String) : Except ArgumentsIssue Given :=
  if (g.settings.lookup setting).isSome then .error .conflict
  else if accepts setting value then
    .ok { g with settings := (setting, value) :: g.settings, pending := none }
  else .error .invalidValue

/-- Looks at the option that came last. -/
def settle (g : Given) : Except ArgumentsIssue Given :=
  match g.pending with
  | none => .ok g
  | some (_, none) => .error .invalidValue
  | some (setting, some value) => g.set setting value

/-- Takes in an option and the value attached to it, if there is one. -/
def option (g : Given) (setting : Setting) (attached : Option String) :
    Except ArgumentsIssue Given := do
  let g ← g.settle
  match attached with
  | some value => g.set setting value
  | none => return { g with pending := some (setting, none) }

/-- Takes in a flag. -/
def flag (g : Given) (flag : Flag) : Except ArgumentsIssue Given := do
  let g ← g.settle
  match flag with
  | .help => throw .helpRequest
  | .version => throw .versionRequest
  | flag =>
    if g.flags.contains flag then throw .conflict else return { g with flags := flag :: g.flags }

/-- Takes in the letters after a single dash: flags, and at the end an option with what follows it
    as its value. -/
def letters (g : Given) : List Char → Except ArgumentsIssue Given
  | [] => .ok g
  | c :: rest =>
    match shortNames.lookup c with
    | none => .error .unknownArgument
    | some (.inr f) => do letters (← g.flag f) rest
    | some (.inl setting) =>
      match rest with
      | [] => g.option setting none
      | '=' :: value => g.option setting (some (String.ofList value))
      | value => g.option setting (some (String.ofList value))

/-- Takes in a long name after two dashes, with a value after an equals sign if there is one. -/
def long (g : Given) (text : List Char) : Except ArgumentsIssue Given :=
  let name := firstPiece '=' text
  let attached := match text.drop name.length with
    | [] => none
    | _ :: value => some (String.ofList value)
  match longNames.lookup (String.ofList name), attached with
  | none, _ => .error .unknownArgument
  | some (.inl setting), attached => g.option setting attached
  | some (.inr f), none => g.flag f
  | some (.inr _), some _ => .error .tooManyValues

/-- Takes in an argument that no option begins: the value of the option before it. -/
def value (g : Given) (text : String) : Except ArgumentsIssue Given :=
  match g.pending with
  | some (setting, none) => .ok { g with pending := some (setting, some text) }
  | _ => .error .unknownArgument

/-- Takes in one argument. -/
def argument (g : Given) (arg : String) : Except ArgumentsIssue Given :=
  match arg.toList with
  | '-' :: '-' :: text => g.long text
  | '-' :: c :: rest => g.letters (c :: rest)
  | _ => g.value arg

/-- Takes in all arguments. After two dashes alone only values could follow, and there are none. -/
def arguments (g : Given) : List String → Except ArgumentsIssue Given
  | [] => .ok g
  | arg :: rest =>
    if arg = "--" then if rest.isEmpty then .ok g else .error .unknownArgument
    else do arguments (← g.argument arg) rest

/-- The whole request, once all arguments are in. -/
def finish (g : Given) : Except ArgumentsIssue Arguments := do
  let g ← g.settle
  if g.flags.contains .quiet ∧ g.flags.contains .verbose then throw .conflict
  match g.settings.lookup .func with
  | none => throw .missingRequired
  | some func =>
    return {
      func
      src := (g.settings.lookup .src).getD "."
      output := (g.settings.lookup .output).getD "-"
      format := ((g.settings.lookup .format).bind formatOfWord?).getD .indented
      includeTests := g.flags.contains .includeTests
      quiet := g.flags.contains .quiet
      verbose := g.flags.contains .verbose }

end Given

/-- The request that a list of arguments makes. -/
def parse (args : List String) : Except ArgumentsIssue Arguments := do
  (← Given.arguments {} args).finish

end Arguments

end CallSchema
