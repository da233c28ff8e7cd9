import CallSchema.Text.Blank
import CallSchema.Text.Pieces

/-!
Comments of a declaration and the description that they give.

* `commentLines` strips the markers of one comment and gives its lines.
* `CommentBlock.describe` joins the lines of all comments that are not empty by single spaces:
  first the comments above the declaration, then those on the line it ends on.
-/

namespace CallSchema

open Text

/-- The comments that belong to a declaration, with their markers. -/
structure CommentBlock where
  /-- The comments on the lines directly above, from top to bottom. -/
  leading : List String := []
  /-- The comments that begin on the line where the declaration ends. -/
  trailing : List String := []
deriving Repr, DecidableEq

/-- The inside of a comment between `/*` and `*/`, which may not share characters. -/
def blockBody? : List Char → Option (List Char)
  | '/' :: '*' :: body =>
    if body.length ≥ 2 ∧ body.drop (body.length - 2) = ['*', '/'] then
      some (body.take (body.length - 2))
    else none
  | _ => none

/-- The lines of one comment. A line comment loses the space after its marker, if there is one,
    and the white space at its end; a line of a block comment, and a text that is no comment, loses
    the white space at both ends. -/
def commentLines (comment : List Char) : List (List Char) :=
  match comment with
  | '/' :: '/' :: ' ' :: line => [trimEnd line]
  | '/' :: '/' :: line => [trimEnd line]
  | _ =>
    match blockBody? comment with
    | some body => (lines body).map trim
    | none => [trim comment]

namespace CommentBlock

/-- The comments of a block in the order of the description. -/
def comments (block : CommentBlock) : List String := block.leading ++ block.trailing

/-- The lines of a list of comments that are not empty. -/
def descriptionLines (comments : List String) : List (List Char) :=
  (comments.flatMap fun c => commentLines c.toList).filter (!·.isEmpty)

/-- The description of the declaration. -/
def describe (block : CommentBlock) : String :=
  String.ofList (joined [' '] (descriptionLines block.comments))

end CommentBlock

end CallSchema
