import CallSchema.Text.Pieces
import Mathlib.Data.List.Basic

/-!
Texts as bytes in UTF-8.

1. `fromUTF8?_eq_some`: bytes are read as the one text that has them.
2. UTF-8 keeps the order of code points: of two characters the smaller one has the smaller bytes,
   whatever follows them (`utf8EncodeChar_append_lt`). So texts are in the order of their bytes
   exactly if they are in the order of their characters (`utf8Bytes_lt_iff`).
-/

namespace CallSchema.Text

theorem fromUTF8?_eq_some {bytes : ByteArray} {text : String} :
    String.fromUTF8? bytes = some text ↔ bytes = text.toUTF8 := by
  rw [String.fromUTF8?]
  constructor
  · intro h
    split at h
    · obtain rfl := Option.some.inj h
      rfl
    · simp at h
  · rintro rfl
    rw [String.toUTF8_eq_toByteArray, dif_pos text.isValidUTF8]
    rfl

/-- The bytes of a text in UTF-8. -/
def utf8Bytes (s : String) : List UInt8 := s.toUTF8.data.toList

theorem utf8Bytes_eq (s : String) : utf8Bytes s = s.toList.flatMap String.utf8EncodeChar := by
  rw [utf8Bytes, String.toUTF8_eq_toByteArray, ← String.utf8Encode_toList, List.utf8Encode,
    List.toList_data_toByteArray]

/-! ## Numbers by their digits -/

theorem two_digits_lt {m n : Nat} (h : m < n) :
    m / 64 < n / 64 ∨ m / 64 = n / 64 ∧ m % 64 < n % 64 := by omega

theorem three_digits_lt {m n : Nat} (h : m < n) :
    m / 64 / 64 < n / 64 / 64 ∨ m / 64 / 64 = n / 64 / 64 ∧
      (m / 64 % 64 < n / 64 % 64 ∨ m / 64 % 64 = n / 64 % 64 ∧ m % 64 < n % 64) := by
  rcases two_digits_lt h with h | ⟨h, hlast⟩
  · exact (two_digits_lt h).imp_right fun ⟨heq, hlt⟩ => ⟨heq, .inl hlt⟩
  · rw [h]
    exact .inr ⟨rfl, .inr ⟨rfl, hlast⟩⟩

theorem four_digits_lt {m n : Nat} (h : m < n) :
    m / 64 / 64 / 64 < n / 64 / 64 / 64 ∨ m / 64 / 64 / 64 = n / 64 / 64 / 64 ∧
      (m / 64 / 64 % 64 < n / 64 / 64 % 64 ∨ m / 64 / 64 % 64 = n / 64 / 64 % 64 ∧
        (m / 64 % 64 < n / 64 % 64 ∨ m / 64 % 64 = n / 64 % 64 ∧ m % 64 < n % 64)) := by
  rcases two_digits_lt h with h | ⟨h, hlast⟩
  · exact (three_digits_lt h).imp_right fun ⟨heq, hrest⟩ =>
      ⟨heq, hrest.imp_right fun ⟨heq, hlt⟩ => ⟨heq, .inl hlt⟩⟩
  · rw [h]
    exact .inr ⟨rfl, .inr ⟨rfl, .inr ⟨rfl, hlast⟩⟩⟩

/-! ## Characters and texts -/

theorem toNat_lt_of_char (c : Char) : c.val.toNat < 1114112 := by
  have h := c.valid
  simp only [UInt32.isValidChar, Nat.isValidChar] at h
  omega

theorem ofNat_lt_ofNat {m n : Nat} (hm : m < 256) (hn : n < 256) :
    UInt8.ofNat m < UInt8.ofNat n ↔ m < n := by
  rw [UInt8.lt_iff_toNat_lt, UInt8.toNat_ofNat', UInt8.toNat_ofNat', Nat.mod_eq_of_lt hm,
    Nat.mod_eq_of_lt hn]

theorem ofNat_eq_ofNat {m n : Nat} (hm : m < 256) (hn : n < 256) :
    UInt8.ofNat m = UInt8.ofNat n ↔ m = n := by
  rw [← UInt8.toNat_inj, UInt8.toNat_ofNat', UInt8.toNat_ofNat', Nat.mod_eq_of_lt hm,
    Nat.mod_eq_of_lt hn]

/-- The bytes of a smaller character are smaller: either there are fewer of them, and then the
    first one is smaller, or the first digit in which the two differ decides. -/
theorem utf8EncodeChar_append_lt {c d : Char} (h : c < d) (xs ys : List UInt8) :
    String.utf8EncodeChar c ++ xs < String.utf8EncodeChar d ++ ys := by
  have hlt : c.val.toNat < d.val.toNat := UInt32.lt_iff_toNat_lt.mp (Char.lt_def.mp h)
  have hc := toNat_lt_of_char c
  have hd := toNat_lt_of_char d
  have h4096 : ∀ k, k / 4096 = k / 64 / 64 := by omega
  have h262144 : ∀ k, k / 262144 = k / 64 / 64 / 64 := by omega
  unfold String.utf8EncodeChar
  generalize c.val.toNat = m at hlt hc ⊢
  generalize d.val.toNat = n at hlt hd ⊢
  simp only [h4096, h262144]
  have htwo := two_digits_lt hlt
  have hthree := three_digits_lt hlt
  have hfour := four_digits_lt hlt
  split_ifs <;>
    simp (disch := omega) only [List.cons_append, List.nil_append, List.cons_lt_cons_iff,
      ofNat_lt_ofNat, ofNat_eq_ofNat] <;>
    omega

theorem utf8_lt_of_lt {s t : List Char} (h : s < t) :
    s.flatMap String.utf8EncodeChar < t.flatMap String.utf8EncodeChar := by
  induction s generalizing t with
  | nil =>
    cases t with
    | nil => exact absurd h (List.lt_irrefl [])
    | cons d t =>
      rw [List.flatMap_nil, List.flatMap_cons]
      have hlen := String.length_utf8EncodeChar d
      have hpos := d.utf8Size_pos
      cases hd : String.utf8EncodeChar d with
      | nil => simp [hd] at hlen; omega
      | cons b bs => exact List.nil_lt_cons b _
  | cons c s ih =>
    cases t with
    | nil => exact absurd h (List.not_lt_nil _)
    | cons d t =>
      rw [List.flatMap_cons, List.flatMap_cons]
      rcases List.cons_lt_cons_iff.mp h with hlt | ⟨rfl, hlt⟩
      · exact utf8EncodeChar_append_lt hlt _ _
      · exact List.append_left_lt (ih hlt)

/-- The order by bytes is the order by characters. -/
theorem utf8Bytes_lt_iff {s t : String} : utf8Bytes s < utf8Bytes t ↔ s < t := by
  have mono : ∀ {s t : String}, s < t → utf8Bytes s < utf8Bytes t := by
    intro s t h
    rw [utf8Bytes_eq, utf8Bytes_eq]
    exact utf8_lt_of_lt (String.lt_iff.mp h)
  refine ⟨fun h => ?_, mono⟩
  rcases Decidable.em (s < t) with hlt | hge
  · exact hlt
  · rcases Decidable.em (t < s) with hlt | hle
    · exact absurd h (List.lt_asymm (mono hlt))
    · obtain rfl := String.le_antisymm (String.not_lt.mp hle) (String.not_lt.mp hge)
      exact absurd h (List.lt_irrefl _)

end CallSchema.Text
