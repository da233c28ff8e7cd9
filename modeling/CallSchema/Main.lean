import CallSchema.Run

/-!
The command line: it collects what a run looks at, and writes what the run delivers.
-/

namespace CallSchema

/-- The cause of a failed access to a file or to standard output. -/
def fileErrorOf (e : IO.Error) : FileError :=
  match e with
  | .noFileOrDirectory .. => .notFound
  | .inappropriateType _ 20 _ => .notDirectory
  | .inappropriateType _ 21 _ => .isDirectory
  | _ => .refused (toString e)

/-- The contents of a regular file. -/
def readFile? (path : String) : IO (Option ByteArray) :=
  try return some (← IO.FS.readBinFile path) catch _ => return none

/-- The contents of the file of a path in the nearest directory that has one. The directory is given
    by its names, the last one first, and those above it follow. -/
def nearestFile (path : String) : List String → IO (Option ByteArray)
  | [] => return none
  | name :: above => do
    match ← readFile? (String.intercalate "/" (path :: name :: above).reverse) with
    | some bytes => return some bytes
    | none => nearestFile path above

/-- The contents of a settings file. -/
def settingsFile (path : String) : IO (Option ByteArray) := do
  try discard <| IO.FS.realPath path catch _ => return none
  if isAbsolute path then readFile? path
  else nearestFile path (pathComponents (← IO.currentDir).toString).reverse

/-- The files that a directory lists, with their contents; other entries count as directories. -/
def listDirectory (path : String) : IO (Except FileError Listing) := do
  try
    let mut listing : Listing := []
    for entry in ← (← IO.FS.realPath path).readDir do
      if (← entry.path.metadata).type matches .file then
        listing := (entry.fileName, .file (← IO.FS.readBinFile entry.path)) :: listing
      else listing := (entry.fileName, .directory []) :: listing
    return .ok listing
  catch e => return .error (fileErrorOf e)

/-- The variables of the environment. -/
def environmentVariables : IO (List (String × String)) := do
  let bytes := (← readFile? "/proc/self/environ").getD .empty
  let text := (String.fromUTF8? bytes).getD ""
  return (Text.cut '\x00' text.toList).map fun entry =>
    let name := Text.firstPiece '=' entry
    (String.ofList name, String.ofList (entry.drop (name.length + 1)))

/-- The directory of the user's settings. -/
def settingsDirectory : IO (Option String) := do
  match ← IO.getEnv "XDG_CONFIG_HOME" with
  | some dir => if dir.startsWith "/" then return some dir
  | none => pure ()
  return (← IO.getEnv "HOME").map (pathIn · ".config")

/-- What the directory tree of the machine shows to a run. -/
def surroundings (src : String) : IO Surroundings := do
  let userFile ← match ← settingsDirectory with
    | some dir => settingsFile (pathIn dir userFileName)
    | none => pure none
  return {
    userFile
    projectFile := ← settingsFile projectFileName
    environment := ← environmentVariables
    listing := ← listDirectory src }

/-- Shows an outcome; its exit code is the result. -/
def Outcome.show (o : Outcome) : IO UInt32 := do
  IO.print o.stdout
  if let some message := o.message then IO.eprintln message
  return UInt32.ofNat o.exit

/-- Carries out a delivery. -/
def Delivery.perform (d : Delivery) : IO UInt32 := do
  if isStandardOutput d.destination then
    try
      IO.print d.text
      (← IO.getStdout).flush
      return 0
    catch e => (Failure.print (fileErrorOf e)).outcome.show
  else
    try
      IO.FS.writeFile d.destination d.text
      return 0
    catch e => (Failure.write d.destination (fileErrorOf e)).outcome.show

end CallSchema

open CallSchema in
def main (args : List String) : IO UInt32 := do
  match Arguments.parse args with
  | .error issue => issue.outcome.show
  | .ok request =>
    match plan (← surroundings request.src) request with
    | some (.ok delivery) => delivery.perform
    | some (.error failure) => failure.outcome.show
    | none => Outcome.show { exit := 1, message := some "fnschema error: the types go too deep" }
