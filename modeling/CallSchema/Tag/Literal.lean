import CallSchema.Text.Digit

/-!
Interpreted string literals of Go: what the text between the double quotes stands for.

A body is a sequence of items. A plain character stands for its UTF-8 bytes, a backslash begins an
escape, and the escapes `\x` and three octal digits stand for a single byte each. The bytes of all
items together must be UTF-8.

* `item?` reads one item and always consumes something (`length_lt_of_item?`).
* `unescape` reads a whole body.
-/

namespace CallSchema.Tag

open Text

/-- The escapes of one letter and the characters that they stand for. -/
def letterEscapes : List (Char × Char) :=
  [('a', '\x07'), ('b', '\x08'), ('f', '\x0c'), ('n', '\n'), ('r', '\r'), ('t', '\t'),
   ('v', '\x0b'), ('\\', '\\'), ('"', '"')]

/-- The bytes of a character given by its code point in `count` hexadecimal digits. -/
def scalarEscape? (count : Nat) (s : List Char) : Option (List UInt8 × List Char) := do
  let (n, rest) ← digits? 16 count s
  let c ← scalar? n
  return (String.utf8EncodeChar c, rest)

/-- The single byte given by `count` digits of the base. -/
def byteEscape? (base count : Nat) (s : List Char) : Option (List UInt8 × List Char) := do
  let (n, rest) ← digits? base count s
  if n < 256 then return ([UInt8.ofNat n], rest) else none

/-- What an escape stands for, given the text after its backslash, and the text that follows. -/
def escape? : List Char → Option (List UInt8 × List Char)
  | [] => none
  | e :: rest =>
    match letterEscapes.lookup e with
    | some c => some (String.utf8EncodeChar c, rest)
    | none =>
      if e = 'x' then byteEscape? 16 2 rest
      else if e = 'u' then scalarEscape? 4 rest
      else if e = 'U' then scalarEscape? 8 rest
      else if isDigit 8 e then byteEscape? 8 3 (e :: rest)
      else none

/-- What the first item of a body stands for, and the text that follows. A double quote and a line
    feed are no items. -/
def item? : List Char → Option (List UInt8 × List Char)
  | [] => none
  | c :: rest =>
    if c = '\\' then escape? rest
    else if c = '"' ∨ c = '\n' then none
    else some (String.utf8EncodeChar c, rest)

theorem length_le_of_scalarEscape? {count : Nat} {s r : List Char} {b : List UInt8}
    (h : scalarEscape? count s = some (b, r)) : r.length ≤ s.length := by
  simp only [scalarEscape?, Option.bind_eq_bind, Option.bind_eq_some_iff, Option.pure_def,
    Option.some.injEq, Prod.mk.injEq, Prod.exists] at h
  obtain ⟨n, rest, hd, c, -, -, rfl⟩ := h
  have := length_of_digits? hd
  omega

theorem length_lt_of_byteEscape? {base count : Nat} {s r : List Char} {b : List UInt8}
    (h : byteEscape? base count s = some (b, r)) : s.length = r.length + count := by
  simp only [byteEscape?, Option.bind_eq_bind, Option.bind_eq_some_iff, Option.pure_def,
    Prod.exists] at h
  obtain ⟨n, rest, hd, h⟩ := h
  split at h
  · simp only [Option.some.injEq, Prod.mk.injEq] at h
    obtain ⟨-, rfl⟩ := h
    exact length_of_digits? hd
  · exact absurd h (by simp)

theorem length_lt_of_escape? {s r : List Char} {b : List UInt8} (h : escape? s = some (b, r)) :
    r.length < s.length := by
  cases s with
  | nil => simp [escape?] at h
  | cons e rest =>
    simp only [escape?] at h
    split at h
    · simp only [Option.some.injEq, Prod.mk.injEq] at h
      obtain ⟨-, rfl⟩ := h
      simp
    · split at h
      · have := length_lt_of_byteEscape? h
        simp only [List.length_cons]; omega
      · split at h
        · have := length_le_of_scalarEscape? h
          simp only [List.length_cons]; omega
        · split at h
          · have := length_le_of_scalarEscape? h
            simp only [List.length_cons]; omega
          · split at h
            · have := length_lt_of_byteEscape? h
              simp only [List.length_cons] at *; omega
            · exact absurd h (by simp)

/-- Reading an item consumes at least one character. -/
theorem length_lt_of_item? {s r : List Char} {b : List UInt8} (h : item? s = some (b, r)) :
    r.length < s.length := by
  cases s with
  | nil => simp [item?] at h
  | cons c rest =>
    simp only [item?] at h
    split at h
    · have := length_lt_of_escape? h
      simp only [List.length_cons]; omega
    · split at h
      · exact absurd h (by simp)
      · simp only [Option.some.injEq, Prod.mk.injEq] at h
        obtain ⟨-, rfl⟩ := h
        simp

/-- The bytes that the items of a body stand for, if it is a sequence of items. -/
def itemBytes? (s : List Char) : Option (List UInt8) :=
  match s with
  | [] => some []
  | c :: r =>
    match _h : item? (c :: r) with
    | none => none
    | some (bytes, rest) => (itemBytes? rest).map (bytes ++ ·)
termination_by s.length
decreasing_by exact length_lt_of_item? _h

/-- What a body stands for: its items' bytes read as UTF-8. -/
def unescape (body : List Char) : Option String := do
  let bytes ← itemBytes? body
  String.fromUTF8? bytes.toByteArray

end CallSchema.Tag
