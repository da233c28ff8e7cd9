import CallSchema.Proofs.Utf8
import CallSchema.Tag.Pair
import Mathlib.Data.List.Forall2

/-!
How the body of an interpreted string literal spells a text.

* `Digits base cs n`: the characters are the digits of the number, most significant first.
* `Item` and `Body` are the grammar of bodies: what is an item and which bytes it stands for, and
  the items of a body one after the other. A body `Spells` a text if its bytes are the UTF-8 bytes
  of that text.

1. `unescape_eq_some_iff`: decoding finds the text that a body spells, and nothing else.
2. `spells_spelling`: every text can be spelled.
3. `Body.closing`: the quote behind a body is the one that closes it. The search for that quote
   knows no escape but that a backslash takes one character along, and no item of a body has a quote
   anywhere else.
-/

namespace CallSchema.Tag

open Text

/-! ## Digits -/

/-- The character is a digit of the base with this value; letters may be of either case. -/
def DigitValue (base : Nat) (c : Char) (d : Nat) : Prop :=
  d < base ∧ (c = Nat.digitChar d ∨ c = (Nat.digitChar d).toUpper)

/-- The characters are the digits of the number in the base. -/
def Digits (base : Nat) (cs : List Char) (n : Nat) : Prop :=
  ∃ ds, List.Forall₂ (DigitValue base) cs ds ∧ ds.foldl (fun n d => n * base + d) 0 = n

theorem hexValue?_digitChar :
    ∀ d < 16, hexValue? (Nat.digitChar d) = some d ∧
      hexValue? (Nat.digitChar d).toUpper = some d := by
  decide

/-- The digits of the three ranges have consecutive code points. -/
theorem toNat_digitChar :
    (∀ d < 10, (Nat.digitChar d).toNat = d + 48) ∧
      ∀ d < 6, (Nat.digitChar (d + 10)).toNat = d + 97 ∧
        (Nat.digitChar (d + 10)).toUpper.toNat = d + 65 := by
  decide

theorem eq_digitChar_of_hexValue? {c : Char} {d : Nat} (h : hexValue? c = some d) :
    c = Nat.digitChar d ∨ c = (Nat.digitChar d).toUpper := by
  obtain ⟨hdecimal, hletter⟩ := toNat_digitChar
  simp only [hexValue?, Char.le_def, UInt32.le_iff_toNat_le] at h
  split at h
  · next hc =>
    obtain ⟨hlow, hhigh⟩ : 48 ≤ c.toNat ∧ c.toNat ≤ 57 := hc
    obtain rfl : c.toNat - 48 = d := by simpa using h
    left
    rw [← Char.toNat_inj, hdecimal _ (by omega)]
    omega
  · split at h
    · next hc =>
      obtain ⟨hlow, hhigh⟩ : 97 ≤ c.toNat ∧ c.toNat ≤ 102 := hc
      obtain rfl : c.toNat - 97 + 10 = d := by simpa using h
      left
      rw [← Char.toNat_inj, (hletter _ (by omega)).1]
      omega
    · split at h
      · next hc =>
        obtain ⟨hlow, hhigh⟩ : 65 ≤ c.toNat ∧ c.toNat ≤ 70 := hc
        obtain rfl : c.toNat - 65 + 10 = d := by simpa using h
        right
        rw [← Char.toNat_inj, (hletter _ (by omega)).2]
        omega
      · simp at h

theorem digit?_eq_some_iff {base : Nat} (hbase : base ≤ 16) {c : Char} {d : Nat} :
    digit? base c = some d ↔ DigitValue base c d := by
  rw [digit?, Option.filter_eq_some_iff, decide_eq_true_eq, DigitValue]
  constructor
  · rintro ⟨hvalue, hlt⟩
    exact ⟨hlt, eq_digitChar_of_hexValue? hvalue⟩
  · rintro ⟨hlt, rfl | rfl⟩
    · exact ⟨(hexValue?_digitChar d (by omega)).1, hlt⟩
    · exact ⟨(hexValue?_digitChar d (by omega)).2, hlt⟩

theorem digitsFrom?_eq_some_iff {base : Nat} (hbase : base ≤ 16) {count high n : Nat}
    {s rest : List Char} :
    digitsFrom? base count high s = some (n, rest) ↔
      ∃ cs ds, s = cs ++ rest ∧ cs.length = count ∧ List.Forall₂ (DigitValue base) cs ds ∧
        ds.foldl (fun n d => n * base + d) high = n := by
  induction count generalizing high s with
  | zero =>
    simp only [digitsFrom?, Option.some.injEq, Prod.mk.injEq, List.length_eq_zero_iff]
    constructor
    · rintro ⟨rfl, rfl⟩
      exact ⟨[], [], rfl, rfl, .nil, rfl⟩
    · rintro ⟨_, _, rfl, rfl, h, rfl⟩
      cases h
      exact ⟨rfl, rfl⟩
  | succ count ih =>
    cases s with
    | nil =>
      simp only [digitsFrom?, reduceCtorEq, false_iff]
      rintro ⟨cs, ds, hs, hlength, -⟩
      obtain ⟨rfl, -⟩ := List.append_eq_nil_iff.mp hs.symm
      simp at hlength
    | cons c s =>
      simp only [digitsFrom?, Option.bind_eq_bind, Option.bind_eq_some_iff, ih,
        digit?_eq_some_iff hbase]
      constructor
      · rintro ⟨d, hd, cs, ds, rfl, rfl, hds, rfl⟩
        exact ⟨c :: cs, d :: ds, rfl, rfl, .cons hd hds, rfl⟩
      · rintro ⟨cs, ds, hs, hlength, hds, rfl⟩
        cases hds with
        | nil => simp at hlength
        | @cons c' d cs ds hd hds =>
          obtain ⟨rfl, rfl⟩ := List.cons.inj hs
          exact ⟨d, hd, cs, ds, rfl, by simpa using hlength, hds, rfl⟩

theorem digits?_eq_some_iff {base : Nat} (hbase : base ≤ 16) {count n : Nat}
    {s rest : List Char} :
    digits? base count s = some (n, rest) ↔
      ∃ cs, s = cs ++ rest ∧ cs.length = count ∧ Digits base cs n := by
  rw [digits?, digitsFrom?_eq_some_iff hbase]
  constructor
  · rintro ⟨cs, ds, hs, hlength, hds, hn⟩
    exact ⟨cs, hs, hlength, ds, hds, hn⟩
  · rintro ⟨cs, hs, hlength, ds, hds, hn⟩
    exact ⟨cs, ds, hs, hlength, hds, hn⟩

/-! ## Items -/

/-- An item of a body, and the bytes that it stands for. -/
inductive Item : List Char → List UInt8 → Prop
  | plain {c : Char} (hquote : c ≠ '"') (hfeed : c ≠ '\n') (hbackslash : c ≠ '\\') :
      Item [c] (String.utf8EncodeChar c)
  | letter {e c : Char} (h : (e, c) ∈ letterEscapes) :
      Item ['\\', e] (String.utf8EncodeChar c)
  | hexByte {ds : List Char} {b : UInt8} (hlength : ds.length = 2) (h : Digits 16 ds b.toNat) :
      Item ('\\' :: 'x' :: ds) [b]
  | octalByte {ds : List Char} {b : UInt8} (hlength : ds.length = 3) (h : Digits 8 ds b.toNat) :
      Item ('\\' :: ds) [b]
  | shortScalar {ds : List Char} {c : Char} (hlength : ds.length = 4)
      (h : Digits 16 ds c.toNat) : Item ('\\' :: 'u' :: ds) (String.utf8EncodeChar c)
  | longScalar {ds : List Char} {c : Char} (hlength : ds.length = 8)
      (h : Digits 16 ds c.toNat) : Item ('\\' :: 'U' :: ds) (String.utf8EncodeChar c)

theorem scalar?_eq_some_iff {n : Nat} {c : Char} : scalar? n = some c ↔ c.toNat = n := by
  unfold scalar?
  constructor
  · intro h
    split at h
    · next hvalid =>
      obtain rfl := Option.some.inj h
      rw [Char.ofNat, dif_pos hvalid]
      rfl
    · simp at h
  · rintro rfl
    have hvalid : c.toNat.isValidChar := c.valid
    rw [if_pos hvalid, Char.ofNat_toNat]

theorem scalarEscape?_eq_some_iff {count : Nat} {s rest : List Char} {bytes : List UInt8} :
    scalarEscape? count s = some (bytes, rest) ↔
      ∃ ds c, s = ds ++ rest ∧ ds.length = count ∧ Digits 16 ds c.toNat ∧
        bytes = String.utf8EncodeChar c := by
  simp only [scalarEscape?, Option.bind_eq_bind, Option.bind_eq_some_iff, Option.pure_def,
    Option.some.injEq, Prod.mk.injEq, Prod.exists, scalar?_eq_some_iff,
    digits?_eq_some_iff (Nat.le_refl 16)]
  constructor
  · rintro ⟨_, _, ⟨ds, rfl, hlength, hds⟩, c, rfl, rfl, rfl⟩
    exact ⟨ds, c, rfl, hlength, hds, rfl⟩
  · rintro ⟨ds, c, rfl, hlength, hds, rfl⟩
    exact ⟨c.toNat, rest, ⟨ds, rfl, hlength, hds⟩, c, rfl, rfl, rfl⟩

theorem byteEscape?_eq_some_iff {base count : Nat} (hbase : base ≤ 16) {s rest : List Char}
    {bytes : List UInt8} :
    byteEscape? base count s = some (bytes, rest) ↔
      ∃ ds b, s = ds ++ rest ∧ ds.length = count ∧ Digits base ds b.toNat ∧ bytes = [b] := by
  simp only [byteEscape?, Option.bind_eq_bind, Option.bind_eq_some_iff, Option.pure_def,
    Prod.exists, digits?_eq_some_iff hbase]
  constructor
  · rintro ⟨n, _, ⟨ds, rfl, hlength, hds⟩, h⟩
    split at h
    · next hn =>
      obtain ⟨rfl, rfl⟩ := Prod.mk.inj (Option.some.inj h)
      refine ⟨ds, UInt8.ofNat n, rfl, hlength, ?_, rfl⟩
      rwa [UInt8.toNat_ofNat_of_lt' hn]
    · simp at h
  · rintro ⟨ds, b, rfl, hlength, hds, rfl⟩
    refine ⟨b.toNat, rest, ⟨ds, rfl, hlength, hds⟩, ?_⟩
    rw [if_pos b.toNat_lt, UInt8.ofNat_toNat]

/-- An escape of one letter is found in the table. -/
theorem lookup_letterEscapes : ∀ entry ∈ letterEscapes,
    letterEscapes.lookup entry.1 = some entry.2 := by
  decide

theorem mem_letterEscapes_of_lookup {e c : Char} (h : letterEscapes.lookup e = some c) :
    (e, c) ∈ letterEscapes := by
  obtain ⟨before, behind, hsplit, -⟩ := List.lookup_eq_some_iff.mp h
  exact hsplit ▸ by simp

/-- The digits of octal escapes have no other meaning behind a backslash, and no case. -/
theorem octal_digitChar : ∀ d < 8, (Nat.digitChar d).toUpper = Nat.digitChar d ∧
    letterEscapes.lookup (Nat.digitChar d) = none ∧
    Nat.digitChar d ≠ 'x' ∧ Nat.digitChar d ≠ 'u' ∧ Nat.digitChar d ≠ 'U' := by
  decide

theorem escape?_octal {e : Char} {d : Nat} (h : DigitValue 8 e d) (s : List Char) :
    escape? (e :: s) = byteEscape? 8 3 (e :: s) := by
  have hdigit : isDigit 8 e = true := by
    rw [isDigit, (digit?_eq_some_iff (by decide)).mpr h]
    rfl
  obtain ⟨hupper, hlookup, hx, hu, hU⟩ := octal_digitChar d h.1
  obtain rfl : e = Nat.digitChar d := by simpa [hupper] using h.2
  simp only [escape?, hlookup, if_neg hx, if_neg hu, if_neg hU, if_pos hdigit]

/-- The letters of the other escapes are in no table. -/
theorem lookup_letterEscapes_none :
    letterEscapes.lookup 'x' = none ∧ letterEscapes.lookup 'u' = none ∧
      letterEscapes.lookup 'U' = none := by
  decide

theorem item?_backslash (s : List Char) : item? ('\\' :: s) = escape? s := by
  rw [item?, if_pos rfl]

/-- Reading finds an item at the beginning of a text. -/
theorem item?_append {text : List Char} {bytes : List UInt8} (h : Item text bytes)
    (rest : List Char) : item? (text ++ rest) = some (bytes, rest) := by
  obtain ⟨hx, hu, hU⟩ := lookup_letterEscapes_none
  cases h with
  | plain hquote hfeed hbackslash =>
    rw [List.singleton_append, item?, if_neg hbackslash, if_neg (by simp [hquote, hfeed])]
  | @letter e c h =>
    show item? ('\\' :: e :: rest) = _
    rw [item?_backslash, escape?, lookup_letterEscapes (e, c) h]
  | @hexByte ds b hlength h =>
    show item? ('\\' :: 'x' :: (ds ++ rest)) = _
    rw [item?_backslash, escape?, hx]
    exact (byteEscape?_eq_some_iff (Nat.le_refl 16)).mpr ⟨ds, b, rfl, hlength, h, rfl⟩
  | @octalByte ds b hlength h =>
    obtain ⟨values, hvalues, hn⟩ := h
    cases hvalues with
    | nil => simp at hlength
    | @cons e d es vs he hes =>
      show item? ('\\' :: e :: (es ++ rest)) = _
      rw [item?_backslash, escape?_octal he]
      exact (byteEscape?_eq_some_iff (by decide)).mpr
        ⟨e :: es, b, rfl, hlength, ⟨d :: vs, .cons he hes, hn⟩, rfl⟩
  | @shortScalar ds c hlength h =>
    show item? ('\\' :: 'u' :: (ds ++ rest)) = _
    rw [item?_backslash, escape?, hu]
    exact scalarEscape?_eq_some_iff.mpr ⟨ds, c, rfl, hlength, h, rfl⟩
  | @longScalar ds c hlength h =>
    show item? ('\\' :: 'U' :: (ds ++ rest)) = _
    rw [item?_backslash, escape?, hU]
    exact scalarEscape?_eq_some_iff.mpr ⟨ds, c, rfl, hlength, h, rfl⟩

/-- Whatever is read behind a backslash is an escape. -/
theorem exists_item_of_escape? {s rest : List Char} {bytes : List UInt8}
    (h : escape? s = some (bytes, rest)) :
    ∃ text, '\\' :: s = text ++ rest ∧ Item text bytes := by
  cases s with
  | nil => simp [escape?] at h
  | cons e s =>
    -- The cases follow the letter behind the backslash, in the order in which they are tried.
    simp only [escape?] at h
    split at h
    · next c hc =>
      obtain ⟨rfl, rfl⟩ := Prod.mk.inj (Option.some.inj h)
      exact ⟨['\\', e], rfl, .letter (mem_letterEscapes_of_lookup hc)⟩
    · split at h
      · next hx =>
        obtain ⟨ds, b, rfl, hlength, hds, rfl⟩ :=
          (byteEscape?_eq_some_iff (Nat.le_refl 16)).mp h
        exact ⟨'\\' :: 'x' :: ds, by rw [hx]; rfl, .hexByte hlength hds⟩
      · split at h
        · next hu =>
          obtain ⟨ds, c, rfl, hlength, hds, rfl⟩ := scalarEscape?_eq_some_iff.mp h
          exact ⟨'\\' :: 'u' :: ds, by rw [hu]; rfl, .shortScalar hlength hds⟩
        · split at h
          · next hU =>
            obtain ⟨ds, c, rfl, hlength, hds, rfl⟩ := scalarEscape?_eq_some_iff.mp h
            exact ⟨'\\' :: 'U' :: ds, by rw [hU]; rfl, .longScalar hlength hds⟩
          · split at h
            · obtain ⟨ds, b, hs, hlength, hds, rfl⟩ :=
                (byteEscape?_eq_some_iff (by decide)).mp h
              exact ⟨'\\' :: ds, by rw [hs]; rfl, .octalByte hlength hds⟩
            · simp at h

/-- Reading an item takes an item off the text. -/
theorem item?_eq_some_iff {s rest : List Char} {bytes : List UInt8} :
    item? s = some (bytes, rest) ↔ ∃ text, s = text ++ rest ∧ Item text bytes := by
  constructor
  · intro h
    cases s with
    | nil => simp [item?] at h
    | cons c s =>
      by_cases hbackslash : c = '\\'
      · subst hbackslash
        rw [item?_backslash] at h
        exact exists_item_of_escape? h
      · rw [item?, if_neg hbackslash] at h
        split at h
        · simp at h
        · next hplain =>
          obtain ⟨hquote, hfeed⟩ := not_or.mp hplain
          obtain ⟨rfl, rfl⟩ := Prod.mk.inj (Option.some.inj h)
          exact ⟨[c], rfl, .plain hquote hfeed hbackslash⟩
  · rintro ⟨text, rfl, htext⟩
    exact item?_append htext rest

/-! ## Bodies -/

/-- A body is one item after the other, and stands for their bytes. -/
inductive Body : List Char → List UInt8 → Prop
  | nil : Body [] []
  | cons {text rest : List Char} {bytes bytes' : List UInt8} (head : Item text bytes)
      (tail : Body rest bytes') : Body (text ++ rest) (bytes ++ bytes')

/-- The body spells the text: its items stand for the UTF-8 bytes of the text. -/
def Spells (body : List Char) (text : String) : Prop :=
  Body body (text.toList.flatMap String.utf8EncodeChar)

theorem itemBytes?_append {text : List Char} {bytes : List UInt8} (h : Item text bytes)
    (rest : List Char) :
    itemBytes? (text ++ rest) = (itemBytes? rest).map (bytes ++ ·) := by
  have hitem := item?_append h rest
  cases hs : text ++ rest with
  | nil =>
    simp [hs, item?] at hitem
  | cons c s =>
    rw [hs] at hitem
    rw [itemBytes?]
    split
    · next hnone => exact absurd (hnone.symm.trans hitem) (by simp)
    · next bytes' rest' hsome =>
      obtain ⟨rfl, rfl⟩ := Prod.mk.inj (Option.some.inj (hsome.symm.trans hitem))
      rfl

theorem itemBytes?_eq_some_iff {s : List Char} {bytes : List UInt8} :
    itemBytes? s = some bytes ↔ Body s bytes := by
  constructor
  · intro h
    fun_induction itemBytes? s generalizing bytes with
    | case1 =>
      obtain rfl := Option.some.inj h
      exact .nil
    | case2 => exact absurd h (by simp)
    | case3 c r bytes' rest hitem ih =>
      obtain ⟨text, hs, htext⟩ := item?_eq_some_iff.mp hitem
      obtain ⟨more, hmore, rfl⟩ := Option.map_eq_some_iff.mp h
      exact hs ▸ .cons htext (ih hmore)
  · intro h
    induction h with
    | nil => rw [itemBytes?]
    | cons head _ ih => rw [itemBytes?_append head, ih, Option.map_some]

/-- The bytes of a text are those of its characters in UTF-8. -/
theorem toByteArray_eq_iff {bytes : List UInt8} {text : String} :
    bytes.toByteArray = text.toByteArray ↔
      bytes = text.toList.flatMap String.utf8EncodeChar := by
  have htext : (text.toList.flatMap String.utf8EncodeChar).toByteArray = text.toByteArray :=
    String.utf8Encode_toList
  rw [← htext, List.toByteArray_inj]

/-- Bytes that are read as a text are its UTF-8 bytes. -/
theorem fromUTF8?_eq_some_iff {bytes : List UInt8} {text : String} :
    String.fromUTF8? bytes.toByteArray = some text ↔
      bytes = text.toList.flatMap String.utf8EncodeChar := by
  rw [← toByteArray_eq_iff, Text.fromUTF8?_eq_some, String.toUTF8_eq_toByteArray]

/-- Decoding finds the text that a body spells. -/
theorem unescape_eq_some_iff {body : List Char} {text : String} :
    unescape body = some text ↔ Spells body text := by
  simp only [unescape, Option.bind_eq_bind, Option.bind_eq_some_iff, itemBytes?_eq_some_iff,
    fromUTF8?_eq_some_iff]
  constructor
  · rintro ⟨bytes, hbody, rfl⟩
    exact hbody
  · intro h
    exact ⟨_, h, rfl⟩

/-- A character as an item: with the escape of one letter, if it has one. -/
def escaped (c : Char) : List Char :=
  match letterEscapes.find? (·.2 == c) with
  | some (e, _) => ['\\', e]
  | none => [c]

/-- A spelling of the text. -/
def spelling (text : String) : List Char := text.toList.flatMap escaped

theorem item_escaped (c : Char) : Item (escaped c) (String.utf8EncodeChar c) := by
  rw [escaped]
  split
  · next e c' h =>
    obtain rfl : c' = c := by simpa using List.find?_some h
    exact .letter (List.mem_of_find?_eq_some h)
  · next h =>
    have hother : ∀ entry ∈ letterEscapes, entry.2 ≠ c := by simpa using h
    exact .plain (hother ('"', '"') (by decide)).symm (hother ('n', '\n') (by decide)).symm
      (hother ('\\', '\\') (by decide)).symm

theorem spells_spelling (text : String) : Spells (spelling text) text := by
  unfold Spells spelling
  induction text.toList with
  | nil => exact .nil
  | cons c cs ih => exact .cons (item_escaped c) ih

/-! ## The closing quote -/

theorem closing_plain {c : Char} (hquote : c ≠ '"') (hbackslash : c ≠ '\\') (s : List Char) :
    closing (c :: s) = (closing s).map fun (body, after) => (c :: body, after) := by
  cases s with
  | nil => simp [closing, hquote]
  | cons d s => rw [closing, if_neg hquote, if_neg hbackslash]

theorem closing_backslash (c : Char) (s : List Char) :
    closing ('\\' :: c :: s) =
      (closing s).map fun (body, after) => ('\\' :: c :: body, after) := by
  rw [closing, if_neg (by decide), if_pos rfl]

theorem closing_quote (s : List Char) : closing ('"' :: s) = some ([], s) := by
  cases s with
  | nil => rw [closing, if_pos rfl]
  | cons c s => rw [closing, if_pos rfl]

/-- No digit is a quote or a backslash. -/
theorem digitChar_ne : ∀ d < 16,
    (Nat.digitChar d ≠ '"' ∧ Nat.digitChar d ≠ '\\') ∧
      (Nat.digitChar d).toUpper ≠ '"' ∧ (Nat.digitChar d).toUpper ≠ '\\' := by
  decide

theorem DigitValue.ne {base d : Nat} {c : Char} (hbase : base ≤ 16) (h : DigitValue base c d) :
    c ≠ '"' ∧ c ≠ '\\' := by
  obtain ⟨hlower, hupper⟩ := digitChar_ne d (Nat.lt_of_lt_of_le h.1 hbase)
  rcases h.2 with rfl | rfl
  · exact hlower
  · exact hupper

theorem closing_digits {base : Nat} (hbase : base ≤ 16) {ds : List Char} {values : List Nat}
    (h : List.Forall₂ (DigitValue base) ds values) (s : List Char) :
    closing (ds ++ s) = (closing s).map fun (body, after) => (ds ++ body, after) := by
  induction h with
  | nil =>
    rw [List.nil_append]
    cases closing s <;> rfl
  | @cons c d ds values hc _ ih =>
    obtain ⟨hquote, hbackslash⟩ := hc.ne hbase
    rw [List.cons_append, closing_plain hquote hbackslash, ih]
    cases closing s <;> rfl

/-- The search for the closing quote goes past an item. -/
theorem Item.closing_append {text : List Char} {bytes : List UInt8} (h : Item text bytes)
    (s : List Char) :
    closing (text ++ s) = (closing s).map fun (body, after) => (text ++ body, after) := by
  -- The search takes the first character behind a backslash along, whatever it is. Of the rest of
  -- an escape there are digits only.
  have hescape : ∀ (e : Char) (ds : List Char) (base n : Nat), base ≤ 16 → Digits base ds n →
      closing ('\\' :: e :: (ds ++ s)) =
        (closing s).map fun (body, after) => ('\\' :: e :: ds ++ body, after) := by
    rintro e ds base n hbase ⟨values, hvalues, -⟩
    rw [closing_backslash, closing_digits hbase hvalues]
    cases closing s <;> rfl
  cases h with
  | plain hquote _ hbackslash => exact closing_plain hquote hbackslash s
  | @letter e c _ => exact closing_backslash e s
  | @hexByte ds b _ h => exact hescape 'x' ds 16 b.toNat (Nat.le_refl 16) h
  | @octalByte ds b hlength h =>
    obtain ⟨values, hvalues, -⟩ := h
    cases hvalues with
    | nil => simp at hlength
    | @cons e d es vs _ hes =>
      exact hescape e es 8 _ (by decide) ⟨vs, hes, rfl⟩
  | @shortScalar ds c _ h => exact hescape 'u' ds 16 c.toNat (Nat.le_refl 16) h
  | @longScalar ds c _ h => exact hescape 'U' ds 16 c.toNat (Nat.le_refl 16) h

/-- The quote behind a body closes it. -/
theorem Body.closing {body : List Char} {bytes : List UInt8} (h : Body body bytes)
    (after : List Char) : Tag.closing (body ++ '"' :: after) = some (body, after) := by
  induction h with
  | nil => exact closing_quote after
  | cons head _ ih =>
    rw [List.append_assoc, head.closing_append, ih]
    rfl

end CallSchema.Tag
