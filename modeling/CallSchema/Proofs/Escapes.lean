import CallSchema.Proofs.Spelling

/-!
The items of a body, one by one.

A `WrittenItem` is an item together with the bytes that it stands for, so that a list of them is a
body with all that it stands for.

1. `mem_letterEscapes_iff`: the escapes of one letter are the nine of `ShortEscape`.
2. `unescape_eq_some_iff_items`: decoding succeeds on the texts of lists of items whose bytes
   together are those of a text, and gives this text.
3. `WrittenItem.flatMap_text_injective`: no text is that of two lists of items.
4. `unescape_congr`: behind whole items, whatever stands for the same bytes may stand for each
   other. So a character may be written byte by byte, and each byte in either of its two forms.
-/

namespace CallSchema.Tag

/-! ## Escapes of one letter -/

/-- The letter behind a backslash and the character that the two stand for. -/
inductive ShortEscape : Char → Char → Prop
  | alert : ShortEscape 'a' '\x07'
  | backspace : ShortEscape 'b' '\x08'
  | formFeed : ShortEscape 'f' '\x0c'
  | lineFeed : ShortEscape 'n' '\n'
  | carriageReturn : ShortEscape 'r' '\r'
  | tab : ShortEscape 't' '\t'
  | verticalTab : ShortEscape 'v' '\x0b'
  | backslash : ShortEscape '\\' '\\'
  | quote : ShortEscape '"' '"'

theorem mem_letterEscapes_iff {e c : Char} : (e, c) ∈ letterEscapes ↔ ShortEscape e c := by
  constructor
  · intro h
    simp only [letterEscapes, List.mem_cons, Prod.mk.injEq, List.not_mem_nil, or_false] at h
    rcases h with ⟨rfl, rfl⟩ | ⟨rfl, rfl⟩ | ⟨rfl, rfl⟩ | ⟨rfl, rfl⟩ | ⟨rfl, rfl⟩ | ⟨rfl, rfl⟩ |
      ⟨rfl, rfl⟩ | ⟨rfl, rfl⟩ | ⟨rfl, rfl⟩ <;> constructor
  · intro h
    cases h <;> decide

/-! ## Lists of items -/

/-- An item as it is written, with the bytes that it stands for. -/
@[ext]
structure WrittenItem where
  text : List Char
  bytes : List UInt8
  isItem : Item text bytes

theorem Item.body {text : List Char} {bytes : List UInt8} (h : Item text bytes) :
    Body text bytes := by
  have hbody := Body.cons h .nil
  rwa [List.append_nil, List.append_nil] at hbody

namespace WrittenItem

variable {i j : WrittenItem} {s s' : List Char}

theorem text_ne_nil (i : WrittenItem) : i.text ≠ [] := by
  intro h
  have hitem := item?_append i.isItem []
  simp [h, item?] at hitem

/-- Where a text begins with an item, it does so in one way. -/
theorem text_append_inj (h : i.text ++ s = j.text ++ s') : i = j ∧ s = s' := by
  have hitem := item?_append i.isItem s
  rw [h, item?_append j.isItem s'] at hitem
  obtain ⟨hbytes, rfl⟩ := Prod.mk.inj (Option.some.inj hitem)
  exact ⟨WrittenItem.ext (List.append_cancel_right h) hbytes.symm, rfl⟩

theorem flatMap_text_injective : Function.Injective (List.flatMap WrittenItem.text) := by
  intro items items' h
  induction items generalizing items' with
  | nil =>
    cases items' with
    | nil => rfl
    | cons j items' => exact absurd (List.append_eq_nil_iff.mp h.symm).1 j.text_ne_nil
  | cons i items ih =>
    cases items' with
    | nil => exact absurd (List.append_eq_nil_iff.mp h).1 i.text_ne_nil
    | cons j items' =>
      rw [List.flatMap_cons, List.flatMap_cons] at h
      obtain ⟨rfl, hrest⟩ := text_append_inj h
      rw [ih hrest]

theorem body (items : List WrittenItem) :
    Body (items.flatMap WrittenItem.text) (items.flatMap WrittenItem.bytes) := by
  induction items with
  | nil => exact .nil
  | cons i items ih => exact .cons i.isItem ih

end WrittenItem

/-- A body is the text of a list of items, and stands for their bytes. -/
theorem body_iff {s : List Char} {bytes : List UInt8} :
    Body s bytes ↔ ∃ items : List WrittenItem,
      items.flatMap WrittenItem.text = s ∧ items.flatMap WrittenItem.bytes = bytes := by
  constructor
  · intro h
    induction h with
    | nil => exact ⟨[], rfl, rfl⟩
    | @cons text rest bytes bytes' head _ ih =>
      obtain ⟨items, rfl, rfl⟩ := ih
      exact ⟨⟨text, bytes, head⟩ :: items, rfl, rfl⟩
  · intro h
    obtain ⟨items, rfl, rfl⟩ := h
    exact WrittenItem.body items

theorem unescape_eq_some_iff_items {body : List Char} {text : String} :
    unescape body = some text ↔ ∃ items : List WrittenItem,
      items.flatMap WrittenItem.text = body ∧
        (items.flatMap WrittenItem.bytes).toByteArray = text.toByteArray := by
  simp only [unescape_eq_some_iff, Spells, body_iff, toByteArray_eq_iff]

/-! ## Other texts for the same bytes -/

theorem itemBytes?_body_append {s : List Char} {bytes : List UInt8} (h : Body s bytes)
    (rest : List Char) : itemBytes? (s ++ rest) = (itemBytes? rest).map (bytes ++ ·) := by
  induction h with
  | nil => simp
  | @cons text more bytes bytes' head _ ih =>
    rw [List.append_assoc, itemBytes?_append head, ih, Option.map_map]
    congr 1
    funext tail
    simp

/-- Behind a body, texts of the same bytes may take each other's place. -/
theorem unescape_congr {before s s' : List Char} {bytes bytes' : List UInt8}
    (hbefore : Body before bytes') (h : Body s bytes) (h' : Body s' bytes) (after : List Char) :
    unescape (before ++ (s ++ after)) = unescape (before ++ (s' ++ after)) := by
  have hbytes : itemBytes? (before ++ (s ++ after)) = itemBytes? (before ++ (s' ++ after)) := by
    rw [itemBytes?_body_append hbefore, itemBytes?_body_append hbefore,
      itemBytes?_body_append h, itemBytes?_body_append h']
  rw [unescape, unescape, hbytes]

/-- The byte is written as an escape of its own, with two hexadecimal or three octal digits. -/
inductive ByteEscape : List Char → UInt8 → Prop
  | hex {ds : List Char} {b : UInt8} (hlength : ds.length = 2) (h : Digits 16 ds b.toNat) :
      ByteEscape ('\\' :: 'x' :: ds) b
  | octal {ds : List Char} {b : UInt8} (hlength : ds.length = 3) (h : Digits 8 ds b.toNat) :
      ByteEscape ('\\' :: ds) b

/-- The byte with two hexadecimal digits. -/
def hexEscape (b : UInt8) : List Char :=
  ['\\', 'x', Nat.digitChar (b.toNat / 16), Nat.digitChar (b.toNat % 16)]

/-- The byte with three octal digits. -/
def octalEscape (b : UInt8) : List Char :=
  ['\\', Nat.digitChar (b.toNat / 64), Nat.digitChar (b.toNat / 8 % 8),
    Nat.digitChar (b.toNat % 8)]

theorem digitValue_digitChar {base d : Nat} (h : d < base) :
    DigitValue base (Nat.digitChar d) d :=
  ⟨h, .inl rfl⟩

theorem byteEscape_hexEscape (b : UInt8) : ByteEscape (hexEscape b) b := by
  have hb := b.toNat_lt
  apply ByteEscape.hex rfl
  refine ⟨[b.toNat / 16, b.toNat % 16], ?_, ?_⟩
  · exact .cons (digitValue_digitChar (by omega)) (.cons (digitValue_digitChar (by omega)) .nil)
  · simp only [List.foldl_cons, List.foldl_nil]
    omega

theorem byteEscape_octalEscape (b : UInt8) : ByteEscape (octalEscape b) b := by
  have hb := b.toNat_lt
  apply ByteEscape.octal rfl
  refine ⟨[b.toNat / 64, b.toNat / 8 % 8, b.toNat % 8], ?_, ?_⟩
  · exact .cons (digitValue_digitChar (by omega)) (.cons (digitValue_digitChar (by omega))
      (.cons (digitValue_digitChar (by omega)) .nil))
  · simp only [List.foldl_cons, List.foldl_nil]
    omega

theorem ByteEscape.item {text : List Char} {b : UInt8} (h : ByteEscape text b) :
    Item text [b] := by
  cases h with
  | hex hlength h => exact .hexByte hlength h
  | octal hlength h => exact .octalByte hlength h

/-- Bytes that are written one by one are a body. -/
theorem body_of_byteEscapes {texts : List (List Char)} {bytes : List UInt8}
    (h : List.Forall₂ ByteEscape texts bytes) : Body texts.flatten bytes := by
  induction h with
  | nil => exact .nil
  | cons head _ ih => exact .cons head.item ih

/-- Decoding reads exactly the items of interpreted strings.

    The escapes of one letter are nine. A body is decoded exactly if it is the text of a list of
    items whose bytes, one after the other, are those of a text, which is then the result; and a
    text is that of one list of items at most. Every byte has an escape of either form, and where
    the bytes of a character are written so, in whatever mix of the two, the result is the one for
    the character as an item of its own. -/
theorem unescape_items :
    (∀ e c, (e, c) ∈ letterEscapes ↔ ShortEscape e c) ∧
      (∀ body text, unescape body = some text ↔ ∃ items : List WrittenItem,
        items.flatMap WrittenItem.text = body ∧
          (items.flatMap WrittenItem.bytes).toByteArray = text.toByteArray) ∧
      Function.Injective (List.flatMap WrittenItem.text) ∧
      (∀ b, ByteEscape (hexEscape b) b ∧ ByteEscape (octalEscape b) b) ∧
      ∀ (before : List WrittenItem) (c : Char) (itself : List Char) (mix : List (List Char))
        (after : List Char), Item itself (String.utf8EncodeChar c) →
        List.Forall₂ ByteEscape mix (String.utf8EncodeChar c) →
          unescape (before.flatMap WrittenItem.text ++ (mix.flatten ++ after)) =
            unescape (before.flatMap WrittenItem.text ++ (itself ++ after)) := by
  refine ⟨fun e c => mem_letterEscapes_iff, fun body text => unescape_eq_some_iff_items,
    WrittenItem.flatMap_text_injective,
    fun b => ⟨byteEscape_hexEscape b, byteEscape_octalEscape b⟩, ?_⟩
  intro before c itself mix after hitself hmix
  exact unescape_congr (WrittenItem.body before) (body_of_byteEscapes hmix) hitself.body after

/-- The bytes of `é`, the first with hexadecimal and the second with octal digits. -/
theorem unescape_items_mixed :
    Item ['é'] (String.utf8EncodeChar 'é') ∧
      List.Forall₂ ByteEscape [hexEscape 0xc3, octalEscape 0xa9] (String.utf8EncodeChar 'é') ∧
      unescape ['\\', 'x', 'c', '3', '\\', '2', '5', '1'] = unescape ['é'] := by
  obtain ⟨-, -, -, hforms, hmixed⟩ := unescape_items
  have hitself : Item ['é'] (String.utf8EncodeChar 'é') :=
    .plain (by decide) (by decide) (by decide)
  have hbytes : String.utf8EncodeChar 'é' = [0xc3, 0xa9] := by decide
  have hmix : List.Forall₂ ByteEscape [hexEscape 0xc3, octalEscape 0xa9]
      (String.utf8EncodeChar 'é') := by
    rw [hbytes]
    exact .cons (hforms 0xc3).1 (.cons (hforms 0xa9).2 .nil)
  exact ⟨hitself, hmix, hmixed [] 'é' ['é'] _ [] hitself hmix⟩

end CallSchema.Tag
