import CallSchema.Text.Digit

/-!
Lengths of literals and comments in Go source.

Each function looks at the characters from the current place on and gives the count of characters
that the literal or comment takes, or `none` if there is none at this place.

* `numberLength?` is the longest of all number literals that begin here.
* `stringLength?`, `rawStringLength?` and `runeLength?` want the closing quote;
  `blockCommentLength?` wants the closing marker.
-/

namespace CallSchema.Go

open Text

/-! ## Comments -/

/-- A line comment runs up to the line feed. -/
def lineCommentLength? : List Char → Option Nat
  | '/' :: '/' :: s => some (2 + (s.takeWhile (· ≠ '\n')).length)
  | _ => none

/-- The count of characters up to and with the next `*/`. -/
def blockCommentRest? : List Char → Option Nat
  | '*' :: '/' :: _ => some 2
  | _ :: s => (blockCommentRest? s).map (· + 1)
  | [] => none

/-- A block comment runs up to the first `*/` after its opening marker. -/
def blockCommentLength? : List Char → Option Nat
  | '/' :: '*' :: s => (blockCommentRest? s).map (· + 2)
  | _ => none

/-! ## Strings and runes -/

/-- A raw string runs up to the next backquote. -/
def rawStringLength? : List Char → Option Nat
  | '\x60' :: s =>
    let body := s.takeWhile (· ≠ '\x60')
    if body.length < s.length then some (body.length + 2) else none
  | _ => none

/-- Whether the text begins with `count` digits of the base. -/
def startsWithDigits (base count : Nat) (s : List Char) : Bool := (digits? base count s).isSome

/-- The count of characters of a string up to and with its closing quote. A backslash takes the
    next character along; after `\x`, `\u` and `\U` there must be two, four and eight hexadecimal
    digits. -/
def stringRest? : List Char → Option Nat
  | [] => none
  | '"' :: _ => some 1
  | '\n' :: _ => none
  | ['\\'] => none
  | '\\' :: c :: s =>
    let complete := match c with
      | 'x' => startsWithDigits 16 2 s
      | 'u' => startsWithDigits 16 4 s
      | 'U' => startsWithDigits 16 8 s
      | _ => true
    if complete then (stringRest? s).map (· + 2) else none
  | _ :: s => (stringRest? s).map (· + 1)

/-- A string stays on its line. -/
def stringLength? : List Char → Option Nat
  | '"' :: s => (stringRest? s).map (· + 1)
  | _ => none

/-- The count of characters of an escape in a rune, after the backslash. -/
def runeEscapeLength? : List Char → Option Nat
  | 'x' :: s => if startsWithDigits 16 2 s then some 3 else none
  | 'u' :: s => if startsWithDigits 16 4 s then some 5 else none
  | 'U' :: s => if startsWithDigits 16 8 s then some 9 else none
  | c :: s =>
    if ['a', 'b', 'f', 'n', 'r', 't', 'v', '\\', '\'', '"'].contains c then some 1
    else if startsWithDigits 8 3 (c :: s) then some 3
    else none
  | [] => none

/-- A rune holds one character or one escape. -/
def runeLength? : List Char → Option Nat
  | '\'' :: '\\' :: s => do
    let n ← runeEscapeLength? s
    if (s.drop n).head? = some '\'' then some (n + 3) else none
  | '\'' :: c :: '\'' :: _ => if c = '\'' then none else some 3
  | _ => none

/-! ## Numbers -/

/-- The same run after one underscore that may stand before it. -/
def markedDigitsLength (base : Nat) : List Char → Nat
  | '_' :: s => if digitsLength base s = 0 then 0 else digitsLength base s + 1
  | s => digitsLength base s

/-- Some positive length. -/
def positive? (n : Nat) : Option Nat := if n = 0 then none else some n

/-- An exponent: its letter, in lower case `mark`, a sign or none, and digits. -/
def exponentLength? (mark : Char) : List Char → Option Nat
  | c :: s =>
    if c.toLower = mark then
      match s with
      | '+' :: t | '-' :: t => (positive? (digitsLength 10 t)).map (· + 2)
      | _ => (positive? (digitsLength 10 s)).map (· + 1)
    else none
  | [] => none

/-- The length of a point and the digits of the base after it; there must be some digit unless
    `digitsBefore`. -/
def fractionLength? (base : Nat) (digitsBefore : Bool) : List Char → Option Nat
  | '.' :: s =>
    let n := digitsLength base s
    if n = 0 && !digitsBefore then none else some (n + 1)
  | _ => none

/-- Integers with a letter for their base after a zero. -/
def prefixedIntegerLength? : List Char → Option Nat
  | '0' :: c :: s =>
    let base := match c with
      | 'x' | 'X' => 16
      | 'o' | 'O' => 8
      | 'b' | 'B' => 2
      | _ => 0
    (positive? (markedDigitsLength base s)).map (· + 2)
  | _ => none

/-- Integers without such a letter: zero, a decimal number that does not begin with zero, and an
    octal number after a zero. -/
def plainIntegerLength? : List Char → Option Nat
  | '0' :: s => some (markedDigitsLength 8 s + 1)
  | s => positive? (digitsLength 10 s)

/-- Decimal numbers with a point, an exponent or both. -/
def decimalFloatLength? (s : List Char) : Option Nat :=
  let whole := digitsLength 10 s
  match fractionLength? 10 (whole != 0) (s.drop whole) with
  | some n => some (whole + n + (exponentLength? 'e' (s.drop (whole + n))).getD 0)
  | none =>
    if whole = 0 then none else (exponentLength? 'e' (s.drop whole)).map (· + whole)

/-- Hexadecimal numbers with an exponent, which they must have. -/
def hexFloatLength? : List Char → Option Nat
  | '0' :: c :: s =>
    if c = 'x' ∨ c = 'X' then
      let whole := markedDigitsLength 16 s
      let n := (fractionLength? 16 (whole != 0) (s.drop whole)).getD 0
      if whole + n = 0 then none
      else (exponentLength? 'p' (s.drop (whole + n))).map (· + (whole + n + 2))
    else none
  | _ => none

/-- The length together with the `i` of an imaginary number, if there is one. -/
def withImaginary (s : List Char) (n : Nat) : Nat := if (s.drop n)[0]? = some 'i' then n + 1 else n

/-- The longest number that begins the text. Any decimal digits make an imaginary number. -/
def numberLength? (s : List Char) : Option Nat :=
  let reals := [prefixedIntegerLength? s, plainIntegerLength? s, decimalFloatLength? s,
    hexFloatLength? s].filterMap id
  let decimals := digitsLength 10 s
  let imaginary := if decimals ≠ 0 && (s.drop decimals)[0]? = some 'i' then [decimals + 1] else []
  (imaginary ++ reals.map (withImaginary s)).max?

end CallSchema.Go
