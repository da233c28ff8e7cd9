import CallSchema.Error
import CallSchema.Tag

/-!
Tags read from UTF-8 texts, by byte offsets.

`Tag.parse` goes from character to character. Here the same is done in the terms of a machine: the
pieces of a text are cut out at byte offsets, the quote that closes a body is looked for byte by
byte, and the values of escapes are numbers of 32 bits. What can go wrong there is a `Fault`.

* `slice` cuts out a piece, which must begin and end where characters do.
* `closingFrom` looks for the closing quote. A backslash takes one byte along, which need not be
  the whole character after it.
* `itemBytes` reads a body; the numbers in it are checked at each step (`number`).
* `nextPair` reads one pair and always consumes something (`length_lt_of_nextPair`); `pairs` reads
  all of them, and `parse` a whole literal.
-/

namespace CallSchema.Tag.Scanner

open Text

/-- What must not happen. -/
inductive Fault where
  /-- A piece begins or ends inside of a character, or outside of the text. -/
  | badSlice
  /-- A number takes more than 32 bits. -/
  | overflow
deriving Repr, DecidableEq

/-- A result, if nothing went wrong on the way. -/
abbrev Checked := Except Fault

/-! ## Pieces -/

/-- The piece of a text between two byte offsets. -/
def slice (s : String) (start stop : Nat) : Checked String :=
  if inside : start ≤ stop ∧ String.Pos.Raw.IsValid s ⟨start⟩ ∧ String.Pos.Raw.IsValid s ⟨stop⟩ then
    .ok (String.extract (⟨⟨start⟩, inside.2.1⟩ : s.Pos) ⟨⟨stop⟩, inside.2.2⟩)
  else .error .badSlice

/-- A text in the middle of another one is a piece of it. -/
theorem slice_append (before piece after : String) :
    slice (before ++ piece ++ after) before.utf8ByteSize
      (before.utf8ByteSize + piece.utf8ByteSize) = .ok piece := by
  have hstart : String.Pos.Raw.IsValid (before ++ piece ++ after) ⟨before.utf8ByteSize⟩ :=
    String.Pos.Raw.isValid_iff_exists_append.mpr
      ⟨before, piece ++ after, String.append_assoc .., rfl⟩
  have hstop : String.Pos.Raw.IsValid (before ++ piece ++ after)
      ⟨before.utf8ByteSize + piece.utf8ByteSize⟩ :=
    String.Pos.Raw.isValid_iff_exists_append.mpr
      ⟨before ++ piece, after, rfl, by simp [String.Pos.Raw.ext_iff]⟩
  rw [slice, dif_pos ⟨Nat.le_add_right _ _, hstart, hstop⟩]
  refine congrArg Except.ok (String.toByteArray_inj.mp ?_)
  simp only [String.toByteArray_extract, String.toByteArray_append, ByteArray.append_assoc,
    ← String.size_toByteArray]
  -- What stands before the piece has the size of the first offset.
  rw [← Nat.add_zero before.toByteArray.size, Nat.add_assoc, ByteArray.extract_append_size_add,
    Nat.zero_add, ByteArray.extract_append_eq_left rfl]

/-- A piece can be cut out exactly if it stands in the text, between its two offsets. -/
theorem slice_eq_ok_iff {s piece : String} {start stop : Nat} :
    slice s start stop = .ok piece ↔ ∃ before after, s = before ++ piece ++ after ∧
      start = before.utf8ByteSize ∧ stop = before.utf8ByteSize + piece.utf8ByteSize := by
  constructor
  · intro h
    by_cases inside : start ≤ stop ∧ String.Pos.Raw.IsValid s ⟨start⟩ ∧
        String.Pos.Raw.IsValid s ⟨stop⟩
    · rw [slice, dif_pos inside] at h
      obtain rfl := Except.ok.inj h
      have hstop : stop ≤ s.utf8ByteSize := inside.2.2.le_utf8ByteSize
      refine ⟨s.extract s.startPos ⟨⟨start⟩, inside.2.1⟩, s.extract ⟨⟨stop⟩, inside.2.2⟩ s.endPos,
        ?_, ?_, ?_⟩
      · refine String.toByteArray_inj.mp ?_
        simp only [String.toByteArray_append, String.toByteArray_extract, String.offset_startPos,
          String.offset_endPos, String.Pos.Raw.byteIdx_zero, String.byteIdx_rawEndPos]
        rw [← ByteArray.extract_eq_extract_append_extract _ (Nat.zero_le _) inside.1,
          ← ByteArray.extract_eq_extract_append_extract _ (Nat.zero_le _) hstop]
        exact ByteArray.extract_zero_size.symm
      all_goals
        simp only [← String.size_toByteArray, String.toByteArray_extract, ByteArray.size_extract]
        simp only [String.size_toByteArray, String.offset_startPos, String.Pos.Raw.byteIdx_zero]
        omega
    · rw [slice, dif_neg inside] at h
      exact absurd h nofun
  · rintro ⟨before, after, rfl, rfl, rfl⟩
    exact slice_append before piece after

theorem length_le_of_slice {s piece : String} {start stop : Nat}
    (h : slice s start stop = .ok piece) : piece.length ≤ s.length := by
  obtain ⟨before, after, rfl, -, -⟩ := slice_eq_ok_iff.mp h
  rw [String.length_append, String.length_append]
  omega

/-! ## The closing quote -/

/-- Where the search for the quote that closes a body stops that starts at an offset: at the first
    quote that is not taken along by a backslash, or else at the end or right behind it. -/
def closingFrom (bytes : List UInt8) (offset : Nat) : Nat :=
  if _inside : offset < bytes.length then
    if bytes[offset] = 0x22 then offset
    else if bytes[offset] = 0x5c then closingFrom bytes (offset + 2)
    else closingFrom bytes (offset + 1)
  else offset
termination_by bytes.length - offset

/-- Where the search for the quote stops that closes the body at the beginning of a text. -/
def closingOffset (s : String) : Nat := closingFrom s.toUTF8.data.toList 0

/-! ## Numbers -/

/-- A number of 32 bits. -/
def u32 (n : Nat) : Checked Nat := if n < UInt32.size then .ok n else .error .overflow

theorem u32_eq_ok {n : Nat} (h : n < UInt32.size) : u32 n = .ok n := if_pos h

/-- The number that `count` digits write after the leading digits with the value `high`, and the
    text that follows them. -/
def number (base : Nat) : (count high : Nat) → List Char → Checked (Option (Nat × List Char))
  | 0, high, s => .ok (some (high, s))
  | count + 1, high, s => do
    let product ← u32 (high * base)
    match s with
    | [] => return none
    | c :: rest =>
      match digit? base c with
      | none => return none
      | some d =>
        let sum ← u32 (product + d)
        number base count sum rest

theorem lt_of_digit? {base d : Nat} {c : Char} (h : digit? base c = some d) : d < base := by
  rw [digit?, Option.filter_eq_some_iff] at h
  exact of_decide_eq_true h.2

/-- A number has its 32 bits on the whole way, if all numbers of its length have. -/
theorem number_eq {base : Nat} (hbase : 0 < base) {count high : Nat} {s : List Char}
    (h : (high + 1) * Nat.pow base count ≤ UInt32.size) :
    number base count high s = .ok (digitsFrom? base count high s) := by
  induction count generalizing high s with
  | zero => rfl
  | succ count ih =>
    have hpow : 0 < Nat.pow base count := Nat.pow_pos hbase
    have hstep : (high + 1) * base * Nat.pow base count ≤ UInt32.size := by
      rwa [Nat.mul_assoc, Nat.mul_comm base]
    have hnext : high * base + base ≤ UInt32.size := by
      rw [← Nat.succ_mul]
      exact Nat.le_trans (Nat.le_mul_of_pos_right _ hpow) hstep
    rw [number, u32_eq_ok (by omega)]
    cases s with
    | nil => rfl
    | cons c rest =>
      cases hd : digit? base c with
      | none => simp [digitsFrom?, hd, bind, Except.bind, pure, Except.pure]
      | some d =>
        have hlt := lt_of_digit? hd
        have hrest : number base count (high * base + d) rest =
            .ok (digitsFrom? base count (high * base + d) rest) := by
          refine ih (Nat.le_trans (Nat.mul_le_mul_right _ ?_) hstep)
          rw [Nat.succ_mul]
          omega
        simp only [digitsFrom?, hd]
        show (u32 (high * base + d) >>= fun sum => number base count sum rest) = _
        rw [u32_eq_ok (by omega)]
        exact hrest

/-- The single byte with the value of a number. -/
def byteOf : Nat × List Char → Option (List UInt8 × List Char)
  | (n, rest) => if n < 256 then some ([UInt8.ofNat n], rest) else none

/-- The bytes of the character with the given code point. -/
def scalarOf : Nat × List Char → Option (List UInt8 × List Char)
  | (n, rest) => (scalar? n).map fun c => (String.utf8EncodeChar c, rest)

/-- What an escape stands for, given the text after its backslash, and the text that follows. -/
def escape : List Char → Checked (Option (List UInt8 × List Char))
  | [] => .ok none
  | e :: rest =>
    match letterEscapes.lookup e with
    | some c => .ok (some (String.utf8EncodeChar c, rest))
    | none =>
      if e = 'x' then (·.bind byteOf) <$> number 16 2 0 rest
      else if e = 'u' then (·.bind scalarOf) <$> number 16 4 0 rest
      else if e = 'U' then (·.bind scalarOf) <$> number 16 8 0 rest
      else
        match digit? 8 e with
        | some d => (·.bind byteOf) <$> number 8 2 d rest
        | none => .ok none

/-- What the first item of a body stands for, and the text that follows. -/
def item : List Char → Checked (Option (List UInt8 × List Char))
  | [] => .ok none
  | c :: rest =>
    if c = '\\' then escape rest
    else if c = '"' ∨ c = '\n' then .ok none
    else .ok (some (String.utf8EncodeChar c, rest))

theorem byteEscape?_eq (base count : Nat) (s : List Char) :
    byteEscape? base count s = (digits? base count s).bind byteOf := by
  rw [byteEscape?]
  cases digits? base count s <;> rfl

theorem scalarEscape?_eq (count : Nat) (s : List Char) :
    scalarEscape? count s = (digits? 16 count s).bind scalarOf := by
  rw [scalarEscape?]
  cases digits? 16 count s with
  | none => rfl
  | some x => cases hc : scalar? x.1 <;> simp [scalarOf, hc]

/-- Eight hexadecimal digits are just as many as 32 bits. -/
theorem number_hex {count : Nat} (hcount : count ≤ 8) (s : List Char) :
    number 16 count 0 s = .ok (digits? 16 count s) := by
  refine number_eq (by decide) ?_
  rw [Nat.zero_add, Nat.one_mul]
  exact Nat.pow_le_pow_right (by decide) hcount

/-- Three octal digits, of which the first one has been read. -/
theorem number_octal {c : Char} {d : Nat} (hd : digit? 8 c = some d) (s : List Char) :
    number 8 2 d s = .ok (digits? 8 3 (c :: s)) := by
  have hfits : (d + 1) * Nat.pow 8 2 ≤ UInt32.size :=
    Nat.le_trans (Nat.mul_le_mul_right (Nat.pow 8 2) (lt_of_digit? hd)) (by decide)
  rw [number_eq (by decide) hfits]
  simp only [digits?, digitsFrom?, hd, Nat.zero_mul, Nat.zero_add]
  rfl

/-- No escape has a number of more than 32 bits. -/
theorem escape_eq (s : List Char) : escape s = .ok (escape? s) := by
  cases s with
  | nil => rfl
  | cons e rest =>
    rw [escape, escape?, number_hex (by decide), number_hex (by decide), number_hex (by decide)]
    simp only [byteEscape?_eq, scalarEscape?_eq]
    cases letterEscapes.lookup e with
    | some c => rfl
    | none =>
      dsimp only
      split
      · rfl
      · split
        · rfl
        · split
          · rfl
          · cases hd : digit? 8 e with
            | none => simp [isDigit, hd]
            | some d =>
              simp only [isDigit, hd, number_octal hd, Option.isSome_some, if_pos]
              rfl

theorem item_eq (s : List Char) : item s = .ok (item? s) := by
  cases s with
  | nil => rfl
  | cons c rest =>
    simp only [item, item?, escape_eq]
    split
    · rfl
    · split <;> rfl

/-- The bytes that the items of a body stand for, if it is a sequence of items. -/
def itemBytes (s : List Char) : Checked (Option (List UInt8)) :=
  match s with
  | [] => .ok (some [])
  | c :: r =>
    match _h : item (c :: r) with
    | .error fault => .error fault
    | .ok none => .ok none
    | .ok (some (bytes, rest)) => (·.map (bytes ++ ·)) <$> itemBytes rest
termination_by s.length
decreasing_by exact length_lt_of_item? (Except.ok.inj ((item_eq _).symm.trans _h))

/-- What a body stands for: its items' bytes read as UTF-8. -/
def unquote (body : String) : Checked (Option String) := do
  let bytes ← itemBytes body.toList
  return bytes.bind fun bytes => String.fromUTF8? bytes.toByteArray

/-! ## Pairs -/

/-- The text behind the given character, if it begins with that. -/
def behind? (c : Char) (s : String) : Option String :=
  match s.toList with
  | [] => none
  | d :: rest => if d = c then some (String.ofList rest) else none

theorem length_lt_of_behind? {c : Char} {s rest : String} (h : behind? c s = some rest) :
    rest.length < s.length := by
  rw [← String.length_toList, ← String.length_toList]
  unfold behind? at h
  split at h
  · exact absurd h nofun
  · next d r hs =>
    split at h
    · obtain rfl := Option.some.inj h
      simp [hs]
    · exact absurd h nofun

/-- What the body at the beginning of a text stands for, and the text after its closing quote. -/
def quoted (s : String) : Checked (Except TagError (String × String)) :=
  let stop := closingOffset s
  if s.utf8ByteSize ≤ stop then .ok (.error .valueSyntax)
  else do
    let body ← slice s 0 stop
    match ← unquote body with
    | none => return .error .valueSyntax
    | some value =>
      let after ← slice s (stop + 1) s.utf8ByteSize
      return .ok (value, after)

theorem length_lt_of_quoted {s value after : String} (h : quoted s = .ok (.ok (value, after))) :
    after.length < s.length := by
  unfold quoted at h
  dsimp only at h
  split at h
  · exact absurd h nofun
  · obtain ⟨body, -, h⟩ := bind_eq_ok.mp h
    obtain ⟨value?, -, h⟩ := bind_eq_ok.mp h
    split at h
    · exact absurd h nofun
    · obtain ⟨after', hafter, h⟩ := bind_eq_ok.mp h
      obtain ⟨-, rfl⟩ := Prod.mk.inj (Except.ok.inj (Except.ok.inj h))
      -- Before the last piece there stands the closing quote at the least.
      obtain ⟨before, rest, hs, hbefore, -⟩ := slice_eq_ok_iff.mp hafter
      have hne : before ≠ "" := by
        rintro rfl
        exact absurd hbefore (Nat.succ_ne_zero _)
      have hpos : 0 < before.length := Nat.pos_of_ne_zero (mt String.length_eq_zero_iff.mp hne)
      rw [hs, String.length_append, String.length_append]
      omega

/-- What the body behind a key, a colon and a quote stands for, given the text after the key, and
    the text after the closing quote. -/
def valueBehind (s : String) : Checked (Except TagError (String × String)) :=
  match behind? ':' s with
  | none => .ok (.error .pairSyntax)
  | some afterColon =>
    match behind? '"' afterColon with
    | none => .ok (.error .valueSyntax)
    | some body => quoted body

theorem length_lt_of_valueBehind {s value after : String}
    (h : valueBehind s = .ok (.ok (value, after))) : after.length < s.length := by
  unfold valueBehind at h
  split at h
  · exact absurd h nofun
  · next afterColon hcolon =>
    split at h
    · exact absurd h nofun
    · next body hbody =>
      exact Nat.lt_trans (length_lt_of_quoted h)
        (Nat.lt_trans (length_lt_of_behind? hbody) (length_lt_of_behind? hcolon))

/-- The first pair of a text, which spaces may stand before, and the text after its closing quote;
    none if there are but spaces. -/
def nextPair (text : String) : Checked (Except TagError (Option (Pair × String))) :=
  let rest := String.ofList (text.toList.dropWhile (· == ' '))
  let keySize := (String.ofList (rest.toList.takeWhile isKeyChar)).utf8ByteSize
  if rest.isEmpty then .ok (.ok none)
  else if keySize = 0 then .ok (.error .keySyntax)
  else do
    let key ← slice rest 0 keySize
    let afterKey ← slice rest keySize rest.utf8ByteSize
    let r ← valueBehind afterKey
    return r.map fun (value, after) => some (⟨key, value⟩, after)

/-- Reading a pair consumes at least one character. -/
theorem length_lt_of_nextPair {text after : String} {p : Pair}
    (h : nextPair text = .ok (.ok (some (p, after)))) : after.length < text.length := by
  have htrim : (String.ofList (text.toList.dropWhile (· == ' '))).length ≤ text.length := by
    rw [← String.length_toList, ← String.length_toList, String.toList_ofList]
    exact (List.dropWhile_sublist _).length_le
  unfold nextPair at h
  generalize String.ofList (text.toList.dropWhile (· == ' ')) = rest at h htrim
  dsimp only at h
  split at h
  · exact absurd h nofun
  · split at h
    · exact absurd h nofun
    · obtain ⟨key, -, h⟩ := bind_eq_ok.mp h
      obtain ⟨afterKey, hafterKey, h⟩ := bind_eq_ok.mp h
      obtain ⟨r, hr, h⟩ := bind_eq_ok.mp h
      cases r with
      | error e => exact absurd h nofun
      | ok x =>
        obtain ⟨-, rfl⟩ := Prod.mk.inj (Option.some.inj (Except.ok.inj (Except.ok.inj h)))
        have hlt := length_lt_of_valueBehind hr
        have hle := length_le_of_slice hafterKey
        omega

/-- All pairs of a text in order. -/
def pairs (text : String) : Checked (Except TagError (List Pair)) :=
  match _h : nextPair text with
  | .error fault => .error fault
  | .ok (.error e) => .ok (.error e)
  | .ok (.ok none) => .ok (.ok [])
  | .ok (.ok (some (p, after))) => (·.map (p :: ·)) <$> pairs after
termination_by text.length
decreasing_by exact length_lt_of_nextPair _h

/-! ## Literals -/

/-- Whether a text of at least two bytes begins and ends with the character. -/
def isBetween (c : Char) (s : String) : Bool :=
  2 ≤ s.utf8ByteSize && s.toList.head? == some c && s.toList.getLast? == some c

/-- The text that a tag literal stands for. -/
def literalText (literal : String) : Checked (Except TagError String) :=
  if isBetween '\x60' literal then .ok <$> slice literal 1 (literal.utf8ByteSize - 1)
  else if isBetween '"' literal then do
    let inner ← slice literal 1 (literal.utf8ByteSize - 1)
    match ← unquote inner with
    | none => return .error (.literal literal)
    | some text => return .ok text
  else .ok (.error (.literal literal))

/-- What a tag literal says. -/
def parse (literal : String) : Checked (Except TagError FieldTags) := do
  match ← literalText literal with
  | .error e => return .error e
  | .ok text =>
    match ← pairs text with
    | .error e => return .error e
    | .ok ps => return ofPairs ps

end CallSchema.Tag.Scanner
