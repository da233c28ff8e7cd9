/-!
Digits and the numbers they write.

* `digit?` reads one digit of a base up to 16, in either case.
* `digits?` reads exactly a given count of digits, and hands back the text after them, which is
  shorter by that count (`length_of_digits?`).
* `digitsLength` measures a run of digits that may have underscores between them.
* `decimal` writes a number, and different numbers differently (`decimal_inj`).
-/

namespace CallSchema.Text

/-- The value of a hexadecimal digit. -/
def hexValue? (c : Char) : Option Nat :=
  if '0' ≤ c ∧ c ≤ '9' then some (c.toNat - '0'.toNat)
  else if 'a' ≤ c ∧ c ≤ 'f' then some (c.toNat - 'a'.toNat + 10)
  else if 'A' ≤ c ∧ c ≤ 'F' then some (c.toNat - 'A'.toNat + 10)
  else none

/-- The value of a digit in the given base. -/
def digit? (base : Nat) (c : Char) : Option Nat := (hexValue? c).filter (· < base)

/-- Whether the character is a digit of the base. -/
def isDigit (base : Nat) (c : Char) : Bool := (digit? base c).isSome

/-- The number that `count` digits write after the leading digits with the value `high`, and the
    text that follows them. -/
def digitsFrom? (base : Nat) : (count high : Nat) → List Char → Option (Nat × List Char)
  | 0, high, s => some (high, s)
  | _ + 1, _, [] => none
  | count + 1, high, c :: r => do
    let d ← digit? base c
    digitsFrom? base count (high * base + d) r

/-- The number that exactly `count` digits write, and the text that follows them. -/
def digits? (base count : Nat) (s : List Char) : Option (Nat × List Char) :=
  digitsFrom? base count 0 s

theorem length_of_digitsFrom? {base : Nat} :
    ∀ {count high : Nat} {s : List Char} {n : Nat} {r : List Char},
      digitsFrom? base count high s = some (n, r) → s.length = r.length + count
  | 0, _, _, _, _, h => by simp [digitsFrom?] at h; simp [h.2]
  | _ + 1, _, [], _, _, h => by simp [digitsFrom?] at h
  | count + 1, high, c :: s, n, r, h => by
    simp only [digitsFrom?, Option.bind_eq_bind, Option.bind_eq_some_iff] at h
    obtain ⟨d, _, h⟩ := h
    have := length_of_digitsFrom? h
    simp only [List.length_cons]
    omega

theorem length_of_digits? {base count : Nat} {s r : List Char} {n : Nat}
    (h : digits? base count s = some (n, r)) : s.length = r.length + count :=
  length_of_digitsFrom? h

/-- The count of characters that go on a run of digits, which may have single underscores between
    them. -/
def digitsRest (base : Nat) : List Char → Nat
  | '_' :: d :: s => if isDigit base d then digitsRest base s + 2 else 0
  | c :: s => if isDigit base c then digitsRest base s + 1 else 0
  | [] => 0

/-- The count of characters of a run of digits with single underscores between them; zero if there
    is no digit. -/
def digitsLength (base : Nat) : List Char → Nat
  | c :: s => if isDigit base c then digitsRest base s + 1 else 0
  | [] => 0

/-- The number that digits of the base write; other characters between them do not count. -/
def digitsValue (base : Nat) (s : List Char) : Nat :=
  (s.filterMap (digit? base)).foldl (fun n d => n * base + d) 0

/-- The character with the given code point, if it is a Unicode scalar value. -/
def scalar? (n : Nat) : Option Char := if n.isValidChar then some (Char.ofNat n) else none

/-- The digits of a number in base ten. -/
def decimal (n : Nat) : String := String.ofList (Nat.toDigits 10 n)

theorem decimal_inj {m n : Nat} : decimal m = decimal n ↔ m = n := by
  refine ⟨fun h => ?_, fun h => h ▸ rfl⟩
  have hd : Nat.toDigits 10 m = Nat.toDigits 10 n := String.ofList_injective h
  rw [← Nat.ofDigitChars_ten_toDigits (n := m), hd, Nat.ofDigitChars_ten_toDigits]

end CallSchema.Text
