import CallSchema.Entries
import CallSchema.Error
import CallSchema.Text.Pieces

/-!
Files and directories.

* `Entry.at?` and `Entry.put` look up and replace the entry at a list of names from the root.
* `Entry.resolve` follows a path, one component after another, to such a list of names. Components
  that are empty or a single dot stay where they are, and two dots go up; each wants a directory.
* A `FileTree` is a root with a working directory, where the paths begin that do not begin at the
  root. `FileTree.read` and `FileTree.write` give the errors that a file system without links gives.
-/

namespace CallSchema

open Text

/-- A file or a directory. -/
inductive Entry where
  | file (bytes : ByteArray)
  /-- A directory with its entries, each name once. -/
  | directory (entries : List (String × Entry))
deriving Inhabited

/-- What a directory lists. -/
abbrev Listing := List (String × Entry)

/-- The components of a path, from the first to the last. -/
def pathComponents (path : String) : List String := (cut '/' path.toList).map String.ofList

/-- A path of a file in a directory. -/
def pathIn (dir name : String) : String :=
  if dir.isEmpty ∨ dir.toList.getLast? = some '/' then dir ++ name else dir ++ "/" ++ name

/-- Whether a path begins at the root. -/
def isAbsolute (path : String) : Bool := path.toList.head? == some '/'

namespace Entry

/-- The entry that the names lead to, each inside the one before. -/
def at? : Entry → List String → Option Entry
  | e, [] => some e
  | .file _, _ :: _ => none
  | .directory entries, name :: names => (entries.lookup name).bind (at? · names)

/-- Puts an entry at the place that the names lead to. Directories on the way stay as they are
    otherwise, and those that are missing are made. -/
def put (new : Entry) : List String → Entry → Entry
  | [], _ => new
  | name :: names, .directory entries =>
    .directory (upsert name (put new names ((entries.lookup name).getD (.directory []))) entries)
  | name :: names, .file _ => .directory [(name, put new names (.directory []))]

/-- What the directory at the names lists, where the last name comes first. -/
def listing (root : Entry) (dir : List String) : Except FileError Listing :=
  match root.at? dir.reverse with
  | some (.directory entries) => .ok entries
  | some (.file _) => .error .notDirectory
  | none => .error .notFound

/-- The names that lead to the place of a path, where `here` leads to its start; both are given
    with the last name first. Above the root there is nothing but the root. -/
def resolve (root : Entry) (here : List String) : List String → Except FileError (List String)
  | [] => .ok here
  | component :: components => do
    let entries ← root.listing here
    if component = "" ∨ component = "." then resolve root here components
    else if component = ".." then resolve root here.tail components
    else if (entries.lookup component).isSome then resolve root (component :: here) components
    else .error .notFound

end Entry

/-- All files, and the directory in which a run works. -/
structure FileTree where
  root : Entry
  /-- The names that lead from the root to the working directory, the last one first. -/
  here : List String := []
deriving Inhabited

namespace FileTree

/-- Where a path begins: the names that lead there, the last one first. -/
def start (t : FileTree) (path : String) : List String := if isAbsolute path then [] else t.here

/-- The entry at a path. An empty path leads nowhere. -/
def read (t : FileTree) (path : String) : Except FileError Entry :=
  if path.isEmpty then .error .notFound
  else do
    let names ← t.root.resolve (t.start path) (pathComponents path)
    match t.root.at? names.reverse with
    | some e => .ok e
    | none => .error .notFound

/-- What the directory at a path lists. -/
def list (t : FileTree) (path : String) : Except FileError Listing := do
  match ← t.read path with
  | .directory entries => .ok entries
  | .file _ => .error .notDirectory

/-- The contents of the file at a path, if there is a file. -/
def fileAt? (t : FileTree) (path : String) : Option ByteArray :=
  match t.read path with
  | .ok (.file bytes) => some bytes
  | _ => none

/-- Where a file of the path goes: the names of its directory, the last one first, and its own. -/
def destination (t : FileTree) (path : String) : Except FileError (List String × String) :=
  let backwards := (pathComponents path).reverse
  if path.isEmpty then .error .notFound
  else
    match backwards.dropWhile (· == "") with
    -- Only slashes: the root.
    | [] => .error .isDirectory
    | name :: above => do
      let dir ← t.root.resolve (t.start path) above.reverse
      let entries ← t.root.listing dir
      -- A name before a slash is that of a directory, and so are dots.
      if backwards.head? = some "" ∨ name = "." ∨ name = ".." then .error .isDirectory
      else
        match entries.lookup name with
        | some (.directory _) => .error .isDirectory
        | _ => .ok (dir, name)

/-- The tree after a file was written at a path; what was in the file before is gone. -/
def write (t : FileTree) (path : String) (bytes : ByteArray) : Except FileError FileTree := do
  let (dir, name) ← t.destination path
  return { t with root := .put (.file bytes) (dir.reverse ++ [name]) t.root }

/-- The contents of the file of a path in the nearest directory that has one, of the working
    directory and those above it. A path that begins at the root is the same in all of them. -/
def nearestFile? (root : Entry) (path : String) : (here : List String) → Option ByteArray
  | [] => fileAt? { root } path
  | name :: above =>
    (fileAt? { root, here := name :: above } path).or (nearestFile? root path above)

/-- The contents of a settings file. A file above the working directory counts as well, but only
    where something of that path exists. -/
def settingsFile? (t : FileTree) (path : String) : Option ByteArray :=
  match t.read path with
  | .ok _ => nearestFile? t.root path t.here
  | .error _ => none

end FileTree

end CallSchema
