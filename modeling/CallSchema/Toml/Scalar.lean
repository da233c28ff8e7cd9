import CallSchema.Settings.Value
import CallSchema.Text.Digit

/-!
Strings, numbers and dates of TOML.

Each reader gives what the text begins with and the text after it, or `none`.

* `string?` reads the four kinds of strings: with escapes or literal, on one line or on several.
* `dateTime?` reads dates and times of day, and refuses days that no calendar has.
* `number?` reads integers of 64 bits and finite numbers of double precision, and the words for
  infinity and for no number.
-/

namespace CallSchema.Toml

open CallSchema.Settings (Value)
open Text

/-! ## Characters -/

/-- White space inside a line. -/
def isSpace (c : Char) : Bool := c == ' ' || c == '\t'

/-- The text after the white space on the line. -/
def skipSpace (s : List Char) : List Char := s.dropWhile isSpace

/-- The characters that may stand in comments and strings: all but control characters, of which
    the tab is allowed. -/
def isPlain (c : Char) : Bool := c == '\t' || (0x20 ≤ c.toNat && c.toNat != 0x7F)

/-- The text after a line end. -/
def newline? : List Char → Option (List Char)
  | '\n' :: s => some s
  | '\r' :: '\n' :: s => some s
  | _ => none

/-! ## Strings -/

/-- The escapes of one letter and the characters that they stand for. -/
def letterEscapes : List (Char × Char) :=
  [('b', '\x08'), ('t', '\t'), ('n', '\n'), ('f', '\x0c'), ('r', '\r'), ('"', '"'), ('\\', '\\')]

/-- How many digits an escape of that letter has. -/
def escapeDigits? (c : Char) : Option Nat := [('u', 4), ('U', 8)].lookup c

/-- The character that an escape stands for, given the text after its backslash. -/
def escape? : List Char → Option (Char × List Char)
  | [] => none
  | c :: s =>
    match letterEscapes.lookup c with
    | some e => some (e, s)
    | none => do
      let count ← escapeDigits? c
      let (n, s) ← digits? 16 count s
      return (← scalar? n, s)

theorem length_lt_of_escape? {s r : List Char} {c : Char} (h : escape? s = some (c, r)) :
    r.length < s.length := by
  cases s with
  | nil => simp [escape?] at h
  | cons d s =>
    simp only [escape?] at h
    split at h
    · simp only [Option.some.injEq, Prod.mk.injEq] at h
      obtain ⟨-, rfl⟩ := h
      simp
    · simp only [Option.bind_eq_bind, Option.bind_eq_some_iff, Option.pure_def, Option.some.injEq,
        Prod.mk.injEq, Prod.exists] at h
      obtain ⟨count, -, n, rest, hd, _, -, -, rfl⟩ := h
      have := length_of_digits? hd
      simp only [List.length_cons]
      omega

/-- The characters up to the closing quote. -/
def basicRest? (s : List Char) : Option (List Char × List Char) :=
  match s with
  | [] => none
  | '"' :: r => some ([], r)
  | '\\' :: r =>
    match _h : escape? r with
    | none => none
    | some (c, r) => (basicRest? r).map fun (cs, after) => (c :: cs, after)
  | c :: r =>
    if isPlain c then (basicRest? r).map fun (cs, after) => (c :: cs, after) else none
termination_by s.length
decreasing_by
  · have := length_lt_of_escape? _h
    simp only [List.length_cons]
    omega
  · simp

/-- The text after a backslash at the end of a line: it takes along all white space up to the next
    character that is none. -/
def continuation? (s : List Char) : Option (List Char) :=
  (newline? (skipSpace s)).map fun _ => s.dropWhile fun c => isSpace c || c == '\n' || c == '\r'

theorem length_le_of_continuation? {s r : List Char} (h : continuation? s = some r) :
    r.length ≤ s.length := by
  simp only [continuation?, Option.map_eq_some_iff] at h
  obtain ⟨_, -, rfl⟩ := h
  exact (List.dropWhile_sublist _).length_le

/-- The end of a string that three of the quotes close; up to two more quotes before them belong to
    the string. -/
def closing? (quote : Char) : List Char → Option (List Char × List Char)
  | a :: b :: c :: s =>
    if a = quote ∧ b = quote ∧ c = quote then
      match s with
      | d :: e :: r =>
        if d = quote ∧ e = quote then some ([quote, quote], r)
        else if d = quote then some ([quote], e :: r)
        else some ([], s)
      | [d] => if d = quote then some ([quote], []) else some ([], s)
      | [] => some ([], [])
    else none
  | _ => none

/-- The characters up to three closing quotes. -/
def multilineRest? (s : List Char) : Option (List Char × List Char) :=
  match closing? '"' s with
  | some found => some found
  | none =>
    match s with
    | [] => none
    | '\\' :: r =>
      match _hc : continuation? r with
      | some r => multilineRest? r
      | none =>
        match _he : escape? r with
        | some (c, r) => (multilineRest? r).map fun (cs, after) => (c :: cs, after)
        | none => none
    | '\n' :: r => (multilineRest? r).map fun (cs, after) => ('\n' :: cs, after)
    | '\r' :: '\n' :: r => (multilineRest? r).map fun (cs, after) => ('\n' :: cs, after)
    | c :: r =>
      if isPlain c then (multilineRest? r).map fun (cs, after) => (c :: cs, after) else none
termination_by s.length
decreasing_by
  · have := length_le_of_continuation? _hc
    simp only [List.length_cons]
    omega
  · have := length_lt_of_escape? _he
    simp only [List.length_cons]
    omega
  · simp
  · simp only [List.length_cons]
    omega
  · simp

/-- The characters of a literal string up to its closing quote. -/
def literalRest? : List Char → Option (List Char × List Char)
  | [] => none
  | c :: r =>
    if c = '\'' then some ([], r)
    else if isPlain c then (literalRest? r).map fun (cs, after) => (c :: cs, after)
    else none

/-- The characters of a literal string up to three closing quotes. -/
def multilineLiteralRest? (s : List Char) : Option (List Char × List Char) :=
  match closing? '\'' s with
  | some found => some found
  | none =>
    match s with
    | [] => none
    | '\r' :: '\n' :: r => (multilineLiteralRest? r).map fun (cs, after) => ('\n' :: cs, after)
    | c :: r =>
      if isPlain c || c == '\n' then
        (multilineLiteralRest? r).map fun (cs, after) => (c :: cs, after)
      else none

/-- The text without the line end that it begins with, if it does. -/
def dropNewline (s : List Char) : List Char := (newline? s).getD s

/-- A string on one line. -/
def simpleString? : List Char → Option (String × List Char)
  | '"' :: s => (basicRest? s).map fun (cs, after) => (String.ofList cs, after)
  | '\'' :: s => (literalRest? s).map fun (cs, after) => (String.ofList cs, after)
  | _ => none

/-- A string of any kind. -/
def string? : List Char → Option (String × List Char)
  | '"' :: '"' :: '"' :: s =>
    (multilineRest? (dropNewline s)).map fun (cs, after) => (String.ofList cs, after)
  | '\'' :: '\'' :: '\'' :: s =>
    (multilineLiteralRest? (dropNewline s)).map fun (cs, after) => (String.ofList cs, after)
  | s => simpleString? s

/-! ## Dates and times -/

/-- A number of `count` digits between two bounds. -/
def bounded? (count low high : Nat) (s : List Char) : Option (Nat × List Char) := do
  let (n, s) ← digits? 10 count s
  if low ≤ n ∧ n ≤ high then return (n, s) else none

/-- The text after the character, if it begins with that. -/
def after? (c : Char) : List Char → Option (List Char)
  | d :: s => if d = c then some s else none
  | [] => none

/-- How many days a month has. -/
def daysIn (year month : Nat) : Nat :=
  if month = 2 then
    if year % 4 = 0 ∧ (year % 100 ≠ 0 ∨ year % 400 = 0) then 29 else 28
  else if [4, 6, 9, 11].contains month then 30
  else 31

/-- The text after a date. -/
def date? (s : List Char) : Option (List Char) := do
  let (year, s) ← digits? 10 4 s
  let (month, s) ← bounded? 2 1 12 (← after? '-' s)
  let (_, s) ← bounded? 2 1 (daysIn year month) (← after? '-' s)
  return s

/-- The text after a time of day, which may have a fraction of a second. -/
def time? (s : List Char) : Option (List Char) := do
  let (_, s) ← bounded? 2 0 23 s
  let (_, s) ← bounded? 2 0 59 (← after? ':' s)
  let (_, s) ← bounded? 2 0 60 (← after? ':' s)
  match s with
  | '.' :: d :: r => return if isDigit 10 d then r.dropWhile (isDigit 10) else s
  | _ => return s

/-- The text after the difference from universal time. -/
def offset? : List Char → Option (List Char)
  | c :: s =>
    if c = 'Z' ∨ c = 'z' then some s
    else if c = '+' ∨ c = '-' then do
      let (_, s) ← bounded? 2 0 23 s
      let (_, s) ← bounded? 2 0 59 (← after? ':' s)
      return s
    else none
  | [] => none

/-- The text after a date and the time that may follow it. -/
def dateWithTime? (s : List Char) : Option (List Char) := do
  let s ← date? s
  match s with
  | c :: r =>
    if ['T', 't', ' '].contains c then
      match time? r with
      | some r => return (offset? r).getD r
      | none => return s
    else return s
  | [] => return s

/-- A date, a time of day or both. -/
def dateTime? (s : List Char) : Option (Value × List Char) := do
  let rest ← dateWithTime? s <|> time? s
  return (.date (String.ofList (s.take (s.length - rest.length))), rest)

/-! ## Numbers -/

/-- One more than the largest integer of 64 bits with a sign. -/
def signedBound : Nat := Nat.pow 2 63

/-- Whether a decimal number with the given digits, the last of them worth ten to the power
    `scale`, is too large for double precision: it is at least half a step above the largest
    finite number. -/
def overflows (digits : Nat) (scale : Int) : Bool :=
  let limit := Nat.pow 2 1024 - Nat.pow 2 970
  if digits = 0 then false
  else if 0 ≤ scale then scale > 400 || digits * Nat.pow 10 scale.toNat ≥ limit
  else digits ≥ limit * Nat.pow 10 (min (-scale).toNat (Nat.log2 digits + 1))

/-- The length of a whole number without leading zeros. -/
def wholeLength : List Char → Nat
  | '0' :: _ => 1
  | s => digitsLength 10 s

/-- The length of a point and digits after it, or zero. -/
def fractionLength : List Char → Nat
  | '.' :: s => if digitsLength 10 s = 0 then 0 else digitsLength 10 s + 1
  | _ => 0

/-- The sign that the text begins with: whether it is a minus, and its length. -/
def sign : List Char → Bool × Nat
  | '-' :: _ => (true, 1)
  | '+' :: _ => (false, 1)
  | _ => (false, 0)

/-- The length of an exponent, or zero. -/
def exponentLength : List Char → Nat
  | c :: s =>
    if c = 'e' ∨ c = 'E' then
      let n := digitsLength 10 (s.drop (sign s).2)
      if n = 0 then 0 else n + (sign s).2 + 1
    else 0
  | [] => 0

/-- The value of an exponent of that length. -/
def exponentValue (s : List Char) : Int :=
  let digits : Int := digitsValue 10 (s.drop ((sign (s.drop 1)).2 + 1))
  if (sign (s.drop 1)).1 then -digits else digits

/-- The length of a number in base ten. -/
def decimalLength? (s : List Char) : Option Nat :=
  let (negative, n) := sign s
  let whole := wholeLength (s.drop n)
  let fraction := fractionLength (s.drop (n + whole))
  let exponent := exponentLength (s.drop (n + whole + fraction))
  let digits := digitsValue 10 ((s.drop n).take (whole + fraction))
  if whole = 0 then none
  else if fraction + exponent = 0 then
    if digits < signedBound ∨ (negative ∧ digits = signedBound) then some (n + whole) else none
  else
    let places := ((s.drop (n + whole)).take fraction).countP (isDigit 10)
    let scale := exponentValue ((s.drop (n + whole + fraction)).take exponent) - places
    if !negative && overflows digits scale then none else some (n + whole + fraction + exponent)

/-- The length of an integer after a zero and the letter for its base. -/
def prefixedLength? : List Char → Option Nat
  | '0' :: c :: s => do
    let base ← [('x', 16), ('o', 8), ('b', 2)].lookup c
    let n := digitsLength base s
    if n = 0 ∨ signedBound ≤ digitsValue base (s.take n) then none else return n + 2
  | _ => none

/-- The length of a word for infinity or no number. -/
def wordLength? (s : List Char) : Option Nat :=
  let n := (sign s).2
  if ["inf".toList, "nan".toList].contains ((s.drop n).take 3) then some (n + 3) else none

/-- A number of any kind. What begins like a number with a base has to be one. -/
def number? (s : List Char) : Option (Value × List Char) := do
  let based := match s with
    | '0' :: c :: _ => ['x', 'o', 'b'].contains c
    | _ => false
  let n ← if based then prefixedLength? s else wordLength? s <|> decimalLength? s
  return (.number (String.ofList (s.take n)), s.drop n)

end CallSchema.Toml
