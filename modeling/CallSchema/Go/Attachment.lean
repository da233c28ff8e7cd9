import CallSchema.Comment
import CallSchema.Go.Syntax

/-!
The comments that belong to a node, found among its siblings.

* `Site.leading` is the run of comments directly before the node: no blank line stands inside the
  run or after it, and a comment that begins where another token ends belongs to that token.
* `Site.trailing` are the comments that begin on the line where the node ends; commas and
  semicolons between them are skipped.
* `sites` gives each node of a list with its siblings (`map_node_sites`).
-/

namespace CallSchema.Go

/-- A node among its siblings. -/
structure Site where
  /-- The siblings before the node, the nearest first. -/
  before : List Node
  node : Node
  /-- The siblings after the node in order. -/
  after : List Node

/-- Each node of a list among its siblings, where `before` are further siblings before the list,
    the nearest first. -/
def sitesAfter (before : List Node) : List Node → List Site
  | [] => []
  | n :: after => ⟨before, n, after⟩ :: sitesAfter (n :: before) after

/-- Each node of a list among its siblings. -/
def sites (siblings : List Node) : List Site := sitesAfter [] siblings

theorem map_node_sitesAfter (before siblings : List Node) :
    (sitesAfter before siblings).map Site.node = siblings := by
  induction siblings generalizing before with
  | nil => rfl
  | cons n after ih => simp [sitesAfter, ih]

theorem map_node_sites (siblings : List Node) : (sites siblings).map Site.node = siblings :=
  map_node_sitesAfter [] siblings

theorem node_mem_of_mem_sites {siblings : List Node} {s : Site} (h : s ∈ sites siblings) :
    s.node ∈ siblings := by
  have := List.mem_map_of_mem (f := Site.node) h
  rwa [map_node_sites] at this

/-- Whether a token other than a comment or a line end ends on the line, where `before` are the
    nodes before a comment that begins on it, the nearest first. -/
def endsTokenOn (line : Nat) : (before : List Node) → Bool
  | [] => false
  | n :: before =>
    if n.lastLine ≠ line then false
    else if n.isComment then endsTokenOn line before
    else n.kind != .newline

/-- The comments directly before a line, the nearest first. -/
def commentsAbove (line : Nat) : (before : List Node) → List Node
  | [] => []
  | n :: before =>
    if !n.isComment || n.lastLine + 1 < line || endsTokenOn n.firstLine before then []
    else n :: commentsAbove n.firstLine before

/-- The comments that begin on a line before any other node. -/
def commentsOn (line : Nat) : (after : List Node) → List Node
  | [] => []
  | n :: after =>
    if n.firstLine ≠ line then []
    else if n.isComment then n :: commentsOn line after
    else if n.kind = .symbol "," ∨ n.kind = .symbol ";" then commentsOn line after
    else []

namespace Site

/-- The comments above the node, from top to bottom. -/
def leading (s : Site) : List Node := (commentsAbove s.node.firstLine s.before).reverse

/-- The comments after the node on the line where it ends. -/
def trailing (s : Site) : List Node := commentsOn s.node.lastLine s.after

/-- The comments of the node, with their markers. -/
def comments (s : Site) : CommentBlock :=
  { leading := s.leading.map Node.text, trailing := s.trailing.map Node.text }

end Site

end CallSchema.Go
