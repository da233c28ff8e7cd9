import CallSchema.Toml.Document
import CallSchema.Toml.Scalar

/-!
Reading TOML text.

* `Toml.read?` gives the entries of a document, or nothing if the text is no TOML.
* Arrays and tables inside each other, and the parts of a dotted key, must be fewer than
  `nestingLimit`.
* The readers that call each other take the number of calls that may be nested; a text needs no
  more of them than it has characters.
-/

namespace CallSchema.Toml

open CallSchema.Settings (Value)
open Text

/-- How deep values may be nested, and how many parts a key may have. -/
def nestingLimit : Nat := 79

/-! ## Keys -/

/-- The characters of keys without quotes. -/
def isKeyChar (c : Char) : Bool := c.isAlphanum || c == '_' || c == '-'

/-- One part of a key. -/
def simpleKey? (s : List Char) : Option (String × List Char) :=
  simpleString? s <|>
    let key := s.takeWhile isKeyChar
    if key.isEmpty then none else some (String.ofList key, s.dropWhile isKeyChar)

/-- The parts of a key with points between them, and white space around each. -/
def parts? : Nat → List Char → Option (List String × List Char)
  | 0, _ => none
  | n + 1, s => do
    let (key, s) ← simpleKey? (skipSpace s)
    match skipSpace s with
    | '.' :: s =>
      let (keys, s) ← parts? n s
      return (key :: keys, s)
    | s => return ([key], s)

/-- A key, and the text after it and the white space around it. -/
def key? (s : List Char) : Option (List String × List Char) := parts? nestingLimit s

/-! ## Values -/

/-- The text after white space, line ends and comments. -/
def skipLines : Nat → List Char → List Char
  | 0, s => s
  | n + 1, s =>
    match skipSpace s with
    | '#' :: s => skipLines n (s.dropWhile isPlain)
    | s =>
      match newline? s with
      | some s => skipLines n s
      | none => s

/-- The text after `word`, if it begins with that. -/
def word? (word : List Char) (value : Value) (s : List Char) : Option (Value × List Char) :=
  if s.take word.length = word then some (value, s.drop word.length) else none

/-- A value that holds no others. -/
def scalar? (s : List Char) : Option (Value × List Char) :=
  (string? s).map (fun (text, after) => (.string text, after))
    <|> dateTime? s
    <|> word? "true".toList (.bool true) s
    <|> word? "false".toList (.bool false) s
    <|> number? s

mutual

/-- The value that the text begins with, which may hold values of the given depth, and the text
    after it. -/
def value? (depth : Nat) : Nat → List Char → Option (Value × List Char)
  | 0, _ => none
  | n + 1, s =>
    match depth, s with
    | depth + 1, '[' :: s => do
      let (items, s) ← items? depth n s
      return (.array items, s)
    | depth + 1, '\x7b' :: s =>
      match skipSpace s with
      | '\x7d' :: s => some (.table [], s)
      | _ => do
        let (members, s) ← members? depth n s
        return (← inlineTable? members, s)
    | 0, '[' :: _ => none
    | 0, '\x7b' :: _ => none
    | _, s => scalar? s

/-- The items of an array, and the text after the bracket that closes it. -/
def items? (depth : Nat) : Nat → List Char → Option (List Value × List Char)
  | 0, _ => none
  | n + 1, s =>
    match skipLines s.length s with
    | ']' :: s => some ([], s)
    | s => do
      let (item, s) ← value? depth n s
      match skipLines s.length s with
      | ']' :: s => return ([item], s)
      | ',' :: s =>
        let (items, s) ← items? depth n s
        return (item :: items, s)
      | _ => none

/-- One key with its value or more, and the text after the brace that closes the table. -/
def members? (depth : Nat) : Nat → List Char → Option (List (List String × Value) × List Char)
  | 0, _ => none
  | n + 1, s => do
    let (key, s) ← key? s
    let s ← after? '=' s
    let (value, s) ← value? depth n (skipSpace s)
    match skipSpace s with
    | '\x7d' :: s => return ([(key, value)], s)
    | ',' :: s =>
      let (members, s) ← members? depth n s
      return ((key, value) :: members, s)
    | _ => none

end

/-! ## Lines -/

/-- The text after the end of a line, where a comment may stand before it. -/
def lineEnd? (s : List Char) : Option (List Char) :=
  let s := match skipSpace s with
    | '#' :: s => s.dropWhile isPlain
    | s => s
  if s.isEmpty then some [] else newline? s

/-- The document after the line that the text begins with, before the end of that line. -/
def line? (d : Document) (s : List Char) : Option (Document × List Char) :=
  match skipSpace s with
  | '[' :: '[' :: s => do
    let (path, s) ← key? s
    let s ← after? ']' s
    let s ← after? ']' s
    return (← d.arrayHeader? path, s)
  | '[' :: s => do
    let (path, s) ← key? s
    let s ← after? ']' s
    return (← d.header? path, s)
  -- The end of the line takes the comment.
  | '#' :: s => some (d, '#' :: s)
  | s =>
    if s.isEmpty ∨ (newline? s).isSome then some (d, s)
    else do
      let (key, s) ← key? s
      let s ← after? '=' s
      let (value, s) ← value? nestingLimit (s.length + 1) (skipSpace s)
      return (← d.keyValue? key value, s)

/-- The document after all lines of the text. -/
def lines? : Nat → Document → List Char → Option Document
  | 0, _, _ => none
  | n + 1, d, s =>
    if s.isEmpty then some d
    else do
      let (d, s) ← line? d s
      lines? n d (← lineEnd? s)

/-- The entries of the document that a text writes. A byte-order mark at its start does not
    count. -/
def read? (text : String) : Option (List (String × Value)) :=
  let s := match text.toList with
    | '\uFEFF' :: s => s
    | s => s
  (lines? (s.length + 1) {} s).map Document.values

end CallSchema.Toml
