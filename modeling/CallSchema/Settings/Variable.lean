import CallSchema.Settings.Value
import CallSchema.Text.Blank
import CallSchema.Text.Digit
import CallSchema.Text.Pieces
import CallSchema.Toml.Scalar

/-!
Environment variables that hold settings.

* `Variable.path?` tells which setting a variable of that name sets: `FNSCHEMA_SCHEMA__CYCLES` is
  for `cycles` in the table `schema`.
* `Variable.value` reads what a variable holds: a truth value, a number, a quoted text, a list or a
  table. What is none of these is a text as it stands.
-/

namespace CallSchema.Settings.Variable

open Text

/-! ## Names -/

/-- What the names of the variables begin with, in either case. -/
def mark : List Char := "fnschema_".toList

/-- The text with two underscores in a row read as a point. -/
def pointed : List Char → List Char
  | '_' :: '_' :: s => '.' :: pointed s
  | c :: s => c :: pointed s
  | [] => []

/-- The keys from the outermost table down to the setting that a variable sets, if it sets one. -/
def path? (name : String) : Option (List String) :=
  let lower := (trim name.toList).map Char.toLower
  if lower.take mark.length = mark then
    let keys := cut '.' (trim (pointed (lower.drop mark.length)))
    if keys.any List.isEmpty then none else some (keys.map String.ofList)
  else none

/-! ## Values -/

/-- White space between the parts of a list or table. -/
def isSpace (c : Char) : Bool := [' ', '\t', '\n', '\r', '\x0c'].contains c

/-- The text after the white space that it begins with. -/
def skipSpace (s : List Char) : List Char := s.dropWhile isSpace

/-- The characters that end a text without quotes. -/
def isSeparator (c : Char) : Bool := [',', '[', ']', '\x7b', '\x7d'].contains c

/-- The characters of names without quotes. -/
def isNameChar (c : Char) : Bool := c.isAlphanum || c == '_' || c == '-'

/-- Whether the text is an integer that a machine word holds. -/
def isInteger (s : List Char) : Bool :=
  let (negative, n) := Toml.sign s
  let digits := s.drop n
  !digits.isEmpty && digits.all (isDigit 10)
    && (if negative then digitsValue 10 digits ≤ Toml.signedBound
      else digitsValue 10 digits < 2 * Toml.signedBound)

/-- Whether the text is a number with a point. -/
def isFraction (s : List Char) : Bool :=
  let digits := s.drop (Toml.sign s).2
  let whole := digits.takeWhile (isDigit 10)
  match digits.dropWhile (isDigit 10) with
  | '.' :: rest =>
    let places := rest.takeWhile (isDigit 10)
    let exponent := rest.dropWhile (isDigit 10)
    !(whole ++ places).isEmpty
      && (exponent.isEmpty || match exponent with
        | e :: r =>
          let power := r.drop (Toml.sign r).2
          (e == 'e' || e == 'E') && !power.isEmpty && power.all (isDigit 10)
        | [] => false)
  | _ => false

/-- The value of a text without quotes. -/
def plain (s : List Char) : Value :=
  if isFraction s || isInteger s then .number (String.ofList s) else .string (String.ofList s)

/-- The name of an entry of a table. -/
def name? : List Char → Option (String × List Char)
  | '"' :: s => (Toml.basicRest? s).map fun (cs, after) => (String.ofList cs, after)
  | s =>
    let name := s.takeWhile isNameChar
    if name.isEmpty then none else some (String.ofList name, s.dropWhile isNameChar)

mutual

/-- The value that the text begins with, and the text after it and the white space there. -/
def value? : Nat → List Char → Option (Value × List Char)
  | 0, _ => none
  | n + 1, s =>
    match skipSpace s with
    | 't' :: 'r' :: 'u' :: 'e' :: s => some (.bool true, skipSpace s)
    | 'f' :: 'a' :: 'l' :: 's' :: 'e' :: s => some (.bool false, skipSpace s)
    | '"' :: s =>
      (Toml.basicRest? s).map fun (cs, after) => (.string (String.ofList cs), skipSpace after)
    | '[' :: s => (items? n s).map fun (items, after) => (.array items, skipSpace after)
    | '\x7b' :: s => (entries? n s).map fun (entries, after) => (.table entries, skipSpace after)
    | s =>
      some (plain (trim (s.takeWhile (!isSeparator ·))),
        skipSpace (s.dropWhile (!isSeparator ·)))

/-- The items of a list, and the text after the bracket that closes it. -/
def items? : Nat → List Char → Option (List Value × List Char)
  | 0, _ => none
  | n + 1, s =>
    match s with
    | ']' :: s => some ([], s)
    | s => do
      let (item, s) ← value? n s
      match s with
      | ']' :: s => return ([item], s)
      | ',' :: s =>
        let (items, s) ← items? n s
        return (item :: items, s)
      | _ => none

/-- The entries of a table, and the text after the brace that closes it. Of several entries of one
    name the last counts. -/
def entries? : Nat → List Char → Option (List (String × Value) × List Char)
  | 0, _ => none
  | n + 1, s =>
    match s with
    | '\x7d' :: s => some ([], s)
    | s => do
      let (name, s) ← name? (skipSpace s)
      let (value, s) ← value? n (← Toml.after? '=' (skipSpace s))
      match s with
      | '\x7d' :: s => return ([(name, value)], s)
      | ',' :: s =>
        let (entries, s) ← entries? n s
        return (if (entries.lookup name).isSome then entries else (name, value) :: entries, s)
      | _ => none

end

/-- What a variable holds. -/
def value (text : String) : Value :=
  let s := trim text.toList
  match value? (s.length + 1) s with
  | some (v, []) => v
  | _ => .string (String.ofList s)

/-- A value at the end of a path of keys, as the entries of a table. -/
def nested (value : Value) : List String → List (String × Value)
  | [] => []
  | [key] => [(key, value)]
  | key :: next :: keys => [(key, .table (nested value (next :: keys)))]

/-- The settings that the environment makes, where later variables lie over earlier ones. -/
def entries (environment : List (String × String)) : List (String × Value) :=
  environment.foldl (fun table (name, text) =>
    match path? name with
    | some path => Value.mergeEntries table (nested (value text) path)
    | none => table) []

end CallSchema.Settings.Variable
