import CallSchema.FileTree
import CallSchema.Go.Declaration
import CallSchema.Go.Grammar

/-!
Loading a Go package from a directory.

* `isSource` tells which files belong to the package.
* `Package.loadWith` takes the files in the order of their names, reads all of them as text and then
  parses them; the order in which the directory lists them does not matter. Of several failures the
  first counts, and one in reading counts before one in parsing. `Package.load` does so with the
  grammar of Go.
-/

namespace CallSchema

/-- Whether a file of that name belongs to the package. -/
def isSource (includeTests : Bool) (name : String) : Bool :=
  let s := name.toList
  ".go".toList.isSuffixOf s && s.head? != some '_' && s.head? != some '.'
    && (includeTests || !"_test.go".toList.isSuffixOf s)

/-- A file of a listing, with its contents. -/
def fileOf? : String × Entry → Option (String × ByteArray)
  | (name, .file bytes) => some (name, bytes)
  | (_, .directory _) => none

/-- The source files that a directory lists, ordered by the code points of their names. -/
def sourceFiles (includeTests : Bool) (listing : Listing) : List (String × ByteArray) :=
  ((listing.filterMap fileOf?).filter (isSource includeTests ·.1)).mergeSort
    fun a b => decide (a.1 ≤ b.1)

/-- The text of a file in a directory. -/
def sourceText (dir : String) (file : String × ByteArray) : Except LoadError (String × String) :=
  match String.fromUTF8? file.2 with
  | some text => .ok (file.1, text)
  | none => .error (.unreadable (pathIn dir file.1) .notUtf8)

section Parser

variable (parse : String → Go.Node)

/-- The unit of a file with its name and text. A text with a syntax error anywhere is refused for
    the first one. -/
def sourceUnit (source : String × String) : Except LoadError SourceUnit :=
  let tree := parse source.2
  match tree.firstFault? with
  | some fault => .error (.badSyntax source.1 (fault.firstLine + 1) fault.complaint)
  | none => .ok (SourceUnit.ofTree source.1 tree)

/-- A package from the names and texts of its files, parsed as given. -/
def Package.ofSourcesWith (sources : List (String × String)) : Except LoadError Package := do
  return { units := ← sources.mapM (sourceUnit parse) }

/-- The package in a directory, from what the directory lists, parsed as given. -/
def Package.loadWith (dir : String) (listing : Listing) (includeTests : Bool) :
    Except LoadError Package :=
  match sourceFiles includeTests listing with
  | [] => .error (.noSources dir)
  -- All files are read before the first one is parsed.
  | files => do Package.ofSourcesWith parse (← files.mapM (sourceText dir))

end Parser

/-- A package from the names and texts of its Go files. -/
def Package.ofSources : List (String × String) → Except LoadError Package :=
  Package.ofSourcesWith Go.parse

/-- The package of Go files in a directory, from what the directory lists. -/
def Package.load : String → Listing → Bool → Except LoadError Package := Package.loadWith Go.parse

/-- The package in the directory at a path of a tree. -/
def Package.loadFrom (tree : FileTree) (dir : String) (includeTests : Bool) :
    Except LoadError Package :=
  match tree.list dir with
  | .error e => .error (.unreadable dir e)
  | .ok listing => Package.load dir listing includeTests

end CallSchema
