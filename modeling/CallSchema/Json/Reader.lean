import CallSchema.Json

/-!
Reading JSON text.

* `value?` reads one value and hands back the text after it; `Json.read?` wants a value and nothing
  but white space around it.
* A string is read as code units first (`units?`); the halves of surrogate pairs are put together
  afterwards (`unicode?`), so that a text with an unpaired half is still JSON.
* The readers that call each other take the number of calls that may be nested; a text needs no
  more of them than it has characters.
-/

namespace CallSchema.Json

open Text

/-- The white space of JSON. -/
def isSpace (c : Char) : Bool := c == ' ' || c == '\n' || c == '\t' || c == '\r'

/-- The text after the white space that it begins with. -/
def skipSpace (s : List Char) : List Char := s.dropWhile isSpace

/-! ## Strings -/

/-- The escapes of one letter and what they stand for. -/
def letterUnits : List (Char × Nat) :=
  [('"', 0x22), ('\\', 0x5C), ('/', 0x2F), ('b', 0x08), ('f', 0x0C), ('n', 0x0A), ('r', 0x0D),
   ('t', 0x09)]

/-- What the text after an opening quote holds up to the closing one, as code points and as code
    units of `\u` escapes, and the text after the closing quote. -/
def units? : List Char → Option (List Nat × List Char)
  | [] => none
  | c :: rest =>
    if c = '"' then some ([], rest)
    else if c = '\\' then
      match rest with
      | [] => none
      | e :: rest =>
        match letterUnits.lookup e with
        | some n => (units? rest).map fun (ns, after) => (n :: ns, after)
        | none =>
          match e, rest with
          | 'u', a :: b :: c :: d :: rest => do
            let (n, _) ← digits? 16 4 [a, b, c, d]
            let (ns, after) ← units? rest
            return (n :: ns, after)
          | _, _ => none
    else if c.toNat < 0x20 then none
    else (units? rest).map fun (ns, after) => (c.toNat :: ns, after)

/-- Whether the unit is the first half of a surrogate pair. -/
def isLeading (n : Nat) : Bool := 0xD800 ≤ n && n < 0xDC00

/-- Whether the unit is the second half of a surrogate pair. -/
def isTrailing (n : Nat) : Bool := 0xDC00 ≤ n && n < 0xE000

/-- The characters of a list of units, if every half of a surrogate pair has its other half. -/
def unicode? : List Nat → Option (List Char)
  | [] => some []
  | n :: rest =>
    if isLeading n then
      match rest with
      | [] => none
      | m :: rest =>
        if isTrailing m then do
          let c ← scalar? (0x10000 + (n - 0xD800) * 0x400 + (m - 0xDC00))
          let cs ← unicode? rest
          return c :: cs
        else none
    else do
      let c ← scalar? n
      let cs ← unicode? rest
      return c :: cs

/-! ## Numbers -/

/-- The decimal digits that the text begins with, of which there must be one, and what follows. -/
def someDigits? (s : List Char) : Option (List Char × List Char) :=
  let digits := s.takeWhile (isDigit 10)
  if digits.isEmpty then none else some (digits, s.dropWhile (isDigit 10))

/-- The integer part of a number: zero, or digits that do not begin with zero. -/
def integerPart? (s : List Char) : Option (List Char × List Char) := do
  let (digits, rest) ← someDigits? s
  if digits.head? = some '0' ∧ digits.length > 1 then none else return (digits, rest)

/-- The fraction of a number, if there is a point. -/
def fraction? : List Char → Option (List Char × List Char)
  | '.' :: rest => do
    let (digits, after) ← someDigits? rest
    return ('.' :: digits, after)
  | s => some ([], s)

/-- The sign that the text begins with. -/
def sign : List Char → List Char × List Char
  | '+' :: rest => (['+'], rest)
  | '-' :: rest => (['-'], rest)
  | s => ([], s)

/-- The exponent of a number, if there is one. -/
def exponent? : List Char → Option (List Char × List Char)
  | e :: rest =>
    if e = 'e' ∨ e = 'E' then do
      let (digits, after) ← someDigits? (sign rest).2
      return (e :: (sign rest).1 ++ digits, after)
    else some ([], e :: rest)
  | [] => some ([], [])

/-- A number without its sign. -/
def unsigned? (s : List Char) : Option (List Char × List Char) := do
  let (whole, s) ← integerPart? s
  let (fraction, s) ← fraction? s
  let (exponent, s) ← exponent? s
  return (whole ++ fraction ++ exponent, s)

/-- A number. -/
def number? : List Char → Option (Json × List Char)
  | '-' :: rest =>
    (unsigned? rest).map fun (text, after) => (.number (String.ofList ('-' :: text)), after)
  | s => (unsigned? s).map fun (text, after) => (.number (String.ofList text), after)

/-! ## Values -/

/-- The text after `word`, if it begins with that. -/
def keyword? (word : List Char) (value : Json) (s : List Char) : Option (Json × List Char) :=
  if s.take word.length = word then some (value, s.drop word.length) else none

mutual

/-- The value that the text begins with, and the text after it. -/
def value? : Nat → List Char → Option (Json × List Char)
  | 0, _ => none
  | n + 1, s =>
    match skipSpace s with
    | '"' :: rest => do
      let (ns, after) ← units? rest
      match unicode? ns with
      | some cs => return (.string (String.ofList cs), after)
      | none => return (.unpaired, after)
    | '[' :: rest =>
      match skipSpace rest with
      | ']' :: after => some (.array [], after)
      | _ => do
        let (items, after) ← items? n rest
        return (.array items, after)
    | '\x7b' :: rest =>
      match skipSpace rest with
      | '\x7d' :: after => some (.object [], after)
      | _ => do
        let (members, after) ← members? n rest
        -- One key that is no text makes the whole object unreadable, though it is JSON.
        match members.mapM fun (key, value) => key.map (·, value) with
        | some members => return (.object members, after)
        | none => return (.unpaired, after)
    | 'n' :: rest => keyword? ['n', 'u', 'l', 'l'] .null ('n' :: rest)
    | 't' :: rest => keyword? ['t', 'r', 'u', 'e'] (.bool true) ('t' :: rest)
    | 'f' :: rest => keyword? ['f', 'a', 'l', 's', 'e'] (.bool false) ('f' :: rest)
    | rest => number? rest

/-- One item or more, and the text after the bracket that closes the array. -/
def items? : Nat → List Char → Option (List Json × List Char)
  | 0, _ => none
  | n + 1, s => do
    let (item, rest) ← value? n s
    match skipSpace rest with
    | ']' :: after => return ([item], after)
    | ',' :: rest =>
      let (items, after) ← items? n rest
      return (item :: items, after)
    | _ => none

/-- One member or more, and the text after the brace that closes the object. A key that is no
    Unicode text is missing. -/
def members? : Nat → List Char → Option (List (Option String × Json) × List Char)
  | 0, _ => none
  | n + 1, s =>
    match skipSpace s with
    | '"' :: rest => do
      let (ns, rest) ← units? rest
      let key := (unicode? ns).map String.ofList
      match skipSpace rest with
      | ':' :: rest =>
        let (value, rest) ← value? n rest
        match skipSpace rest with
        | '\x7d' :: after => return ([(key, value)], after)
        | ',' :: rest =>
          let (members, after) ← members? n rest
          return ((key, value) :: members, after)
        | _ => none
      | _ => none
    | _ => none

end

/-- The value that a text writes. -/
def read? (text : String) : Option Json := do
  let s := text.toList
  let (j, rest) ← value? (s.length + 1) s
  if (skipSpace rest).isEmpty then return j else none

end CallSchema.Json
