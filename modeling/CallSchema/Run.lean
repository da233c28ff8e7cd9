import CallSchema.Arguments
import CallSchema.Expansion
import CallSchema.Load
import CallSchema.Schema.Document
import CallSchema.Settings

/-!
A run of the command on a tree of files.

* `plan` decides everything but the write: it gives the text and where it goes, or the failure.
* `run` carries the plan out. It writes to one place, standard output or one file, and only after
  everything else has succeeded.
* A write that fails leaves nothing behind, neither in a file nor on standard output.
* Neither has a result if more than `depth` types have to be entered on the way down, which finitely
  many types can need as well as types without an end.
-/

namespace CallSchema

open Text

/-- What a run looks at besides its arguments. -/
structure Surroundings where
  /-- The contents of the user's settings file, if there is one. -/
  userFile : Option ByteArray
  /-- The contents of the project's settings file, if there is one. -/
  projectFile : Option ByteArray
  /-- The environment variables with their values. -/
  environment : List (String × String)
  /-- What the directory of the package lists. -/
  listing : Except FileError Listing

/-- The text of a description and where it goes. -/
structure Delivery where
  destination : String
  text : String
deriving Repr, DecidableEq

/-- Why a run failed. -/
inductive Failure where
  | settings (cause : SettingsError)
  | describe (func src : String) (cause : SchemaError)
  | write (destination : String) (cause : FileError)
  | print (cause : FileError)
deriving Repr, DecidableEq

/-- The texts of a failure and of its causes. -/
def Failure.chain : Failure → List String
  | settings cause => ["failed to load fnschema configuration", cause.message]
  | describe func src cause =>
    ("failed to describe function '" ++ func ++ "' in " ++ src) :: cause.chain
  | write destination cause => ["failed to write " ++ destination, cause.message]
  | print cause => ["failed to write to standard output", cause.message]

/-- What the command reports. -/
def Failure.message (f : Failure) : String := "fnschema error: " ++ String.intercalate ": " f.chain

/-- Whether a path stands for standard output: a dash, which slashes and single dots may follow. -/
def isStandardOutput (path : String) : Bool :=
  match pathComponents path with
  | first :: rest => first == "-" && rest.all fun c => c == "" || c == "."
  | [] => false

/-- The package in the directory of the request. -/
def packageOf (s : Surroundings) (src : String) (includeTests : Bool) :
    Except SchemaError Package :=
  match s.listing with
  | .error e => .error (.provider (.unreadable src e))
  | .ok listing =>
    match Package.load src listing includeTests with
    | .error e => .error (.provider e)
    | .ok p => .ok p

/-- The description of a function of a package directory, if at most `depth` types have to be
    entered on the way down. -/
def describe? (s : Surroundings) (depth : Nat) (src func : String) (includeTests : Bool)
    (options : TranslateOptions) : Option (Except SchemaError FunctionDetails) :=
  match packageOf s src includeTests with
  | .error e => some (.error e)
  | .ok p => describeFunction? p.provider depth func options

/-- What a run delivers, or why it fails, if at most `depth` types have to be entered. -/
def plan (s : Surroundings) (args : Arguments) (depth : Nat := depthLimit) :
    Option (Except Failure Delivery) :=
  match Settings.load s.userFile s.projectFile s.environment with
  | .error e => some (.error (.settings e))
  | .ok settings =>
    (describe? s depth args.src args.func (settings.includeTests || args.includeTests)
        settings.options).map fun result =>
      match result with
      | .error e => .error (.describe args.func args.src e)
      | .ok details => .ok { destination := args.output, text := details.render args.format }

/-- What can be seen of a run from outside, besides the files it leaves. -/
structure Outcome where
  exit : Nat
  stdout : String := ""
  message : Option String := none
deriving Repr, DecidableEq

/-- The name of the project's settings file. -/
def projectFileName : String := ".fnschema.toml"

/-- The place of the user's settings file under the directory for such files. -/
def userFileName : String := "fnschema/config.toml"

/-- What a tree of files shows to a run. -/
def FileTree.surroundings (tree : FileTree) (settingsDir : Option String)
    (environment : List (String × String)) (src : String) : Surroundings :=
  { userFile := settingsDir.bind fun dir => tree.settingsFile? (pathIn dir userFileName)
    projectFile := tree.settingsFile? projectFileName
    environment
    listing := tree.list src }

/-- What can be seen of a run that fails. -/
def Failure.outcome (f : Failure) : Outcome := { exit := 1, message := some f.message }

/-- Carries out a delivery. `obstacle` is what keeps its destination from being written, if anything
    does that the tree does not show. -/
def FileTree.deliver (tree : FileTree) (d : Delivery) (obstacle : Option FileError := none) :
    Outcome × FileTree :=
  if isStandardOutput d.destination then
    match obstacle with
    | none => ({ exit := 0, stdout := d.text }, tree)
    | some e => ((Failure.print e).outcome, tree)
  else
    match tree.write d.destination d.text.toUTF8, obstacle with
    | .ok after, none => ({ exit := 0 }, after)
    | .ok _, some e => ((Failure.write d.destination e).outcome, tree)
    | .error e, _ => ((Failure.write d.destination e).outcome, tree)

/-- A run with the given request, and the files after it. There is no outcome if more than `depth`
    types have to be entered on the way down. -/
def run (tree : FileTree) (settingsDir : Option String) (environment : List (String × String))
    (args : Arguments) (obstacle : Option FileError := none) (depth : Nat := depthLimit) :
    Option (Outcome × FileTree) :=
  (plan (tree.surroundings settingsDir environment args.src) args depth).map fun result =>
    match result with
    | .error f => (f.outcome, tree)
    | .ok d => tree.deliver d obstacle

/-! ## Arguments that ask for nothing to be described -/

/-- The name and version of the command. -/
def versionText : String := "fnschema 0.1.0\n"

/-- How the command is used. -/
def usageText : String :=
  String.intercalate "\n"
    ["Describe a Go function's parameters as a JSON Schema for function calling",
     "",
     "Usage: fnschema [OPTIONS] --func <FUNC>",
     "",
     "Options:",
     "  -s, --src <SRC>        Directory of the Go package to analyze [default: .]",
     "      --func <FUNC>      Name of the top-level function to describe",
     "  -o, --output <OUTPUT>  Output file, or - for standard output [default: -]",
     "  -f, --format <FORMAT>  Output format [default: json] [possible values: json, raw]",
     "      --include-tests    Also analyze _test.go files",
     "  -q, --quiet            Quiet mode (errors only in logs)",
     "  -v, --verbose          Verbose mode (debug logging)",
     "  -h, --help             Print help",
     "  -V, --version          Print version",
     ""]

/-- What becomes of arguments that make no request. -/
def ArgumentsIssue.outcome : ArgumentsIssue → Outcome
  | helpRequest => { exit := 0, stdout := usageText }
  | versionRequest => { exit := 0, stdout := versionText }
  | _ => { exit := 2 }

/-- The command with its arguments as they are given. -/
def command (tree : FileTree) (settingsDir : Option String) (environment : List (String × String))
    (args : List String) (obstacle : Option FileError := none) (depth : Nat := depthLimit) :
    Option (Outcome × FileTree) :=
  match Arguments.parse args with
  | .error issue =>
    -- A usage that cannot be shown is no failure.
    let shown := if obstacle.isNone then issue.outcome.stdout else ""
    some ({ issue.outcome with stdout := shown }, tree)
  | .ok request => run tree settingsDir environment request obstacle depth

end CallSchema
