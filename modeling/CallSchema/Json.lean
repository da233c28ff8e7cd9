import CallSchema.Text.Digit

/-!
JSON values and their text.

* `quoted` writes a string with the escapes that JSON needs and no others.
* `Json.write` writes a value in one of two layouts: without any white space, or with one entry a
  line and two spaces a level. An empty array or object is always written without white space.
-/

namespace CallSchema

open Text

/-- A JSON value. Members keep their order, and a key may occur more than once. -/
inductive Json where
  | null
  | bool (value : Bool)
  /-- A number, as its text. -/
  | number (text : String)
  | string (value : String)
  | array (items : List Json)
  | object (members : List (String × Json))
  /-- A string, or an object with a key, that holds half of a surrogate pair and so is no Unicode
      text. -/
  | unpaired
deriving Repr, Inhabited

namespace Json

/-! ## Strings -/

/-- The characters that have an escape of one letter, with that letter. -/
def letterEscapes : List (Char × Char) :=
  [('"', '"'), ('\\', '\\'), ('\x08', 'b'), ('\x0c', 'f'), ('\n', 'n'), ('\r', 'r'), ('\t', 't')]

/-- A hexadecimal digit in lower case. -/
def hexChar (n : Nat) : Char :=
  if n < 10 then Char.ofNat ('0'.toNat + n) else Char.ofNat ('a'.toNat + (n - 10))

/-- A character inside a string: the control characters, the quote and the backslash are escaped. -/
def escaped (c : Char) : List Char :=
  match letterEscapes.lookup c with
  | some letter => ['\\', letter]
  | none =>
    if c.toNat < 0x20 then ['\\', 'u', '0', '0', hexChar (c.toNat / 16), hexChar (c.toNat % 16)]
    else [c]

/-- The text of a string with its quotes. -/
def quoted (s : String) : List Char := '"' :: s.toList.flatMap escaped ++ ['"']

/-! ## Values -/

/-- How the text of a value is laid out. -/
inductive Layout where
  /-- On one line, without white space. -/
  | compact
  /-- One entry a line, indented by two spaces a level. -/
  | indented
deriving Repr, DecidableEq

/-- What stands before an entry at the given level, and before the bracket that ends that level. -/
def Layout.lineBreak (layout : Layout) (level : Nat) : List Char :=
  match layout with
  | .compact => []
  | .indented => '\n' :: List.replicate (2 * level) ' '

/-- What stands between a key and its value. -/
def Layout.colon : Layout → List Char
  | .compact => [':']
  | .indented => [':', ' ']

mutual

/-- The text of a value whose entries stand at the level after `level`. -/
def write (layout : Layout) (level : Nat) : Json → List Char
  | .null => ['n', 'u', 'l', 'l']
  | .bool true => ['t', 'r', 'u', 'e']
  | .bool false => ['f', 'a', 'l', 's', 'e']
  | .number text => text.toList
  | .string value => quoted value
  | .array [] => ['[', ']']
  | .array (item :: items) =>
    '[' :: layout.lineBreak (level + 1) ++ write layout (level + 1) item
      ++ writeItems layout (level + 1) items ++ layout.lineBreak level ++ [']']
  | .object [] => ['\x7b', '\x7d']
  | .object (member :: members) =>
    '\x7b' :: layout.lineBreak (level + 1) ++ writeMember layout (level + 1) member
      ++ writeMembers layout (level + 1) members ++ layout.lineBreak level ++ ['\x7d']
  | .unpaired => []
termination_by structural j => j

/-- The items after the first, each with the comma before it. -/
def writeItems (layout : Layout) (level : Nat) : List Json → List Char
  | [] => []
  | item :: items =>
    ',' :: layout.lineBreak level ++ write layout level item ++ writeItems layout level items
termination_by structural items => items

/-- A key with its value. -/
def writeMember (layout : Layout) (level : Nat) : String × Json → List Char
  | (key, value) => quoted key ++ layout.colon ++ write layout level value
termination_by structural member => member

/-- The members after the first, each with the comma before it. -/
def writeMembers (layout : Layout) (level : Nat) : List (String × Json) → List Char
  | [] => []
  | member :: members =>
    ',' :: layout.lineBreak level ++ writeMember layout level member
      ++ writeMembers layout level members
termination_by structural members => members

end

/-- The text of a value. -/
def text (layout : Layout) (j : Json) : String := String.ofList (j.write layout 0)

end Json

end CallSchema
