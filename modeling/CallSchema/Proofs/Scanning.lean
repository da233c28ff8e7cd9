import CallSchema.Proofs.TagText
import CallSchema.Tag.Scanner

/-!
Reading tags by byte offsets goes wrong nowhere.

The search for a closing quote takes one byte along behind a backslash, and may so come to stand
inside of a character. What saves it is that no byte inside of a character is one of an ASCII
character, so that it finds no quote there and no backslash (`eq_singleton_of_mem_utf8`).

1. `searchesAgree`: the search by bytes stops where the one by characters does, in whatever text and
   behind whatever bytes.
2. `quoted_eq`, `nextPair_eq`, `pairs_eq`, `literalText_eq`: pieces are cut out at boundaries of
   characters only, and what is read is what reading by characters gives.
3. `scanner_never_faults`: so a literal is read without a fault, whatever it is.
-/

namespace CallSchema.Text

/-- A byte of ASCII is a whole character. -/
theorem eq_singleton_of_mem_utf8 {c : Char} {b : UInt8} (hb : b ∈ String.utf8EncodeChar c)
    (hascii : b.toNat < 128) : String.utf8EncodeChar c = [b] ∧ c.toNat = b.toNat := by
  have hlarge : ∀ k, 128 ≤ k → k < 256 → ¬ (UInt8.ofNat k).toNat < 128 := fun k hk hk' => by
    rw [UInt8.toNat_ofNat_of_lt' hk']
    omega
  unfold String.utf8EncodeChar at hb ⊢
  dsimp only at hb ⊢
  have hc := toNat_lt_of_char c
  split at hb
  · next h =>
    obtain rfl := List.mem_singleton.mp hb
    rw [if_pos h]
    exact ⟨rfl, (UInt8.toNat_ofNat_of_lt' (Nat.lt_of_le_of_lt h (by decide))).symm⟩
  · split at hb
    · simp only [List.mem_cons, List.not_mem_nil, or_false] at hb
      rcases hb with rfl | rfl <;> exact absurd hascii (hlarge _ (by omega) (by omega))
    · split at hb
      · simp only [List.mem_cons, List.not_mem_nil, or_false] at hb
        rcases hb with rfl | rfl | rfl <;>
          exact absurd hascii (hlarge _ (by omega) (by omega))
      · simp only [List.mem_cons, List.not_mem_nil, or_false] at hb
        rcases hb with rfl | rfl | rfl | rfl <;>
          exact absurd hascii (hlarge _ (by omega) (by omega))

theorem utf8Bytes_ofList (cs : List Char) :
    utf8Bytes (String.ofList cs) = cs.flatMap String.utf8EncodeChar := by
  rw [utf8Bytes_eq, String.toList_ofList]

theorem length_utf8Bytes (s : String) : (utf8Bytes s).length = s.utf8ByteSize := by
  rw [utf8Bytes, String.toUTF8_eq_toByteArray]
  rfl

theorem utf8ByteSize_ofList (cs : List Char) :
    (String.ofList cs).utf8ByteSize = (cs.flatMap String.utf8EncodeChar).length := by
  rw [← length_utf8Bytes, utf8Bytes_ofList]

end CallSchema.Text

namespace CallSchema.Tag.Scanner

open Text

/-! ## The search for the closing quote -/

/-- The byte is that of a double quote or of a backslash. -/
def IsMark (b : UInt8) : Prop := b = 0x22 ∨ b = 0x5c

theorem closingFrom_quote (before after : List UInt8) :
    closingFrom (before ++ 0x22 :: after) before.length = before.length := by
  rw [closingFrom, dif_pos (by simp), if_pos (by simp)]

theorem closingFrom_backslash (before after : List UInt8) :
    closingFrom (before ++ 0x5c :: after) before.length =
      closingFrom (before ++ 0x5c :: after) (before.length + 2) := by
  rw [closingFrom, dif_pos (by simp), if_neg (by simp), if_pos (by simp)]

theorem closingFrom_end {bytes : List UInt8} {offset : Nat} (h : bytes.length ≤ offset) :
    closingFrom bytes offset = offset := by
  rw [closingFrom, dif_neg (Nat.not_lt.mpr h)]

/-- The search goes past bytes that are no marks. -/
theorem closingFrom_append {passed : List UInt8} (h : ∀ b ∈ passed, ¬ IsMark b)
    (before after : List UInt8) :
    closingFrom (before ++ passed ++ after) before.length =
      closingFrom (before ++ passed ++ after) (before ++ passed).length := by
  induction passed generalizing before with
  | nil => rw [List.append_nil]
  | cons b passed ih =>
    obtain ⟨hb, hpassed⟩ := List.forall_mem_cons.mp h
    obtain ⟨hquote, hbackslash⟩ := not_or.mp hb
    have hnext := ih hpassed (before ++ [b])
    rw [List.append_assoc before [b], List.singleton_append] at hnext
    rw [← hnext, closingFrom, dif_pos (by simp), if_neg (by simpa using hquote),
      if_neg (by simpa using hbackslash), List.length_append, List.length_singleton]

/-- The marks are characters of their own: no other one has such a byte. -/
theorem not_isMark_of_mem {c : Char} (hquote : c ≠ '"') (hbackslash : c ≠ '\\') {b : UInt8}
    (hb : b ∈ String.utf8EncodeChar c) : ¬ IsMark b := by
  rintro (rfl | rfl)
  · exact hquote (Char.toNat_inj.mp (eq_singleton_of_mem_utf8 hb (by decide)).2)
  · exact hbackslash (Char.toNat_inj.mp (eq_singleton_of_mem_utf8 hb (by decide)).2)

/-- Behind its first byte no character has a mark. -/
theorem not_isMark_of_mem_tail {c : Char} {first b : UInt8} {rest : List UInt8}
    (hc : String.utf8EncodeChar c = first :: rest) (hb : b ∈ rest) : ¬ IsMark b := by
  intro hmark
  have hascii : b.toNat < 128 := by rcases hmark with rfl | rfl <;> decide
  have hmem : b ∈ String.utf8EncodeChar c := hc ▸ List.mem_cons_of_mem first hb
  obtain ⟨-, rfl⟩ := List.cons.inj (hc.symm.trans (eq_singleton_of_mem_utf8 hmem hascii).1)
  exact List.not_mem_nil hb

/-- Behind a backslash the search takes one byte along and then goes past what is left of the
    character. -/
theorem closingFrom_escaped (before after : List UInt8) (d : Char) :
    closingFrom (before ++ 0x5c :: (String.utf8EncodeChar d ++ after)) before.length =
      closingFrom ((before ++ 0x5c :: String.utf8EncodeChar d) ++ after)
        (before ++ 0x5c :: String.utf8EncodeChar d).length := by
  obtain ⟨first, rest, hd⟩ := List.exists_cons_of_ne_nil (String.utf8EncodeChar_ne_nil (c := d))
  have hpassed := closingFrom_append (fun _ => not_isMark_of_mem_tail hd) (before ++ [0x5c, first])
    after
  rw [closingFrom_backslash, hd]
  simpa using hpassed

/-- Behind the bytes of a text, the search by bytes stops behind the bytes of the body that the
    search by characters finds, and not within the characters if that finds none. -/
def SearchesAgree (before : List UInt8) (cs : List Char) : Prop :=
  match closing cs with
  | some (body, _) =>
    closingFrom (before ++ cs.flatMap String.utf8EncodeChar) before.length =
      (before ++ body.flatMap String.utf8EncodeChar).length
  | none =>
    (before ++ cs.flatMap String.utf8EncodeChar).length ≤
      closingFrom (before ++ cs.flatMap String.utf8EncodeChar) before.length

/-- What both searches go past is of no matter. -/
theorem SearchesAgree.of_passed {before : List UInt8} (passed : List Char) {cs : List Char}
    (hclosing : closing (passed ++ cs) =
      (closing cs).map fun (body, after) => (passed ++ body, after))
    (hfrom : closingFrom (before ++ (passed ++ cs).flatMap String.utf8EncodeChar) before.length =
      closingFrom ((before ++ passed.flatMap String.utf8EncodeChar) ++
        cs.flatMap String.utf8EncodeChar) (before ++ passed.flatMap String.utf8EncodeChar).length)
    (h : SearchesAgree (before ++ passed.flatMap String.utf8EncodeChar) cs) :
    SearchesAgree before (passed ++ cs) := by
  rw [SearchesAgree] at h ⊢
  rw [hclosing, hfrom]
  cases hcs : closing cs with
  | none => simpa [hcs] using h
  | some x => simpa [hcs] using h

theorem utf8_marks :
    String.utf8EncodeChar '"' = [0x22] ∧ String.utf8EncodeChar '\\' = [0x5c] := by decide

/-- The search by bytes stops where the one by characters does. -/
theorem searchesAgree (cs : List Char) (before : List UInt8) : SearchesAgree before cs := by
  obtain ⟨hquoteByte, hbackslashByte⟩ := utf8_marks
  match cs with
  | [] => simp [SearchesAgree, closing, closingFrom_end]
  | c :: cs =>
    by_cases hquote : c = '"'
    · subst hquote
      have hstop := closingFrom_quote before (cs.flatMap String.utf8EncodeChar)
      rw [SearchesAgree, closing_quote, List.flatMap_cons, hquoteByte]
      simpa using hstop
    · by_cases hbackslash : c = '\\'
      · subst hbackslash
        match cs with
        | [] =>
          have hend : closingFrom (before ++ [0x5c]) (before.length + 2) = before.length + 2 :=
            closingFrom_end (by simp)
          have hstop := (closingFrom_backslash before []).trans hend
          rw [SearchesAgree, List.flatMap_singleton, hbackslashByte, hstop]
          simp [closing]
        | d :: cs =>
          refine .of_passed ['\\', d] (closing_backslash d cs) ?_ (searchesAgree cs _)
          · have hstop := closingFrom_escaped before (cs.flatMap String.utf8EncodeChar) d
            simpa [hbackslashByte] using hstop
      · refine .of_passed [c] (closing_plain hquote hbackslash cs) ?_ (searchesAgree cs _)
        · have hstop := closingFrom_append (fun _ => not_isMark_of_mem hquote hbackslash) before
            (cs.flatMap String.utf8EncodeChar)
          simpa using hstop
termination_by cs.length

theorem closingOffset_of_some {s : String} {body after : List Char}
    (h : closing s.toList = some (body, after)) :
    closingOffset s = (String.ofList body).utf8ByteSize := by
  have hagree := searchesAgree s.toList []
  rw [SearchesAgree, ← utf8Bytes_eq] at hagree
  simpa [h, utf8ByteSize_ofList, closingOffset, utf8Bytes] using hagree

theorem closingOffset_of_none {s : String} (h : closing s.toList = none) :
    s.utf8ByteSize ≤ closingOffset s := by
  have hagree := searchesAgree s.toList []
  rw [SearchesAgree, ← utf8Bytes_eq] at hagree
  simpa [h, length_utf8Bytes, closingOffset, utf8Bytes] using hagree

/-- The text is the body, the quote behind it and the rest. -/
theorem eq_of_closing {s : String} {body after : List Char}
    (h : closing s.toList = some (body, after)) :
    s = String.ofList body ++ "\"" ++ String.ofList after := by
  rw [← String.toList_inj, closing_split h]
  simp

/-! ## Bodies -/

theorem itemBytes_eq (cs : List Char) : itemBytes cs = .ok (itemBytes? cs) := by
  fun_induction itemBytes cs with
  | case1 => rw [itemBytes?]
  | case2 c r fault h => exact absurd ((item_eq _).symm.trans h) (by simp)
  | case3 c r h =>
    have hitem : item? (c :: r) = none := Except.ok.inj ((item_eq _).symm.trans h)
    rw [itemBytes?]
    split
    · rfl
    · next bytes rest hsome => exact absurd (hitem.symm.trans hsome) (by simp)
  | case4 c r bytes rest h ih =>
    have hitem : item? (c :: r) = some (bytes, rest) := Except.ok.inj ((item_eq _).symm.trans h)
    rw [ih, itemBytes?]
    split
    · next hnone => exact absurd (hitem.symm.trans hnone) (by simp)
    · next bytes' rest' hsome =>
      obtain ⟨rfl, rfl⟩ := Prod.mk.inj (Option.some.inj (hitem.symm.trans hsome))
      rfl

theorem unquote_eq (body : String) : unquote body = .ok (unescape body.toList) := by
  rw [unquote, itemBytes_eq]
  rfl

/-! ## Pieces -/

theorem slice_prefix (piece after : String) :
    slice (piece ++ after) 0 piece.utf8ByteSize = .ok piece :=
  slice_eq_ok_iff.mpr ⟨"", after, by simp, by simp, by simp⟩

theorem slice_suffix (before piece : String) :
    slice (before ++ piece) before.utf8ByteSize (before ++ piece).utf8ByteSize = .ok piece :=
  slice_eq_ok_iff.mpr ⟨before, "", by simp, by simp, by simp⟩

/-- What the body at the beginning of a text stands for, found by characters, and the text after
    its closing quote. -/
def bodyValue (s : List Char) : Except TagError (String × String) :=
  match closing s with
  | none => .error .valueSyntax
  | some (body, after) =>
    match unescape body with
    | none => .error .valueSyntax
    | some value => .ok (value, String.ofList after)

/-- A body is cut out and read as by characters. -/
theorem quoted_eq (s : String) : quoted s = .ok (bodyValue s.toList) := by
  rw [quoted, bodyValue]
  cases hclosing : closing s.toList with
  | none => exact if_pos (closingOffset_of_none hclosing)
  | some x =>
    obtain ⟨body, after⟩ := x
    have hs := eq_of_closing hclosing
    have hsize : ("\"" : String).utf8ByteSize = 1 := rfl
    have hoffset := closingOffset_of_some hclosing
    have hbody : slice s 0 (closingOffset s) = .ok (String.ofList body) := by
      rw [hoffset, hs, String.append_assoc, slice_prefix]
    have hafter : slice s (closingOffset s + 1) s.utf8ByteSize = .ok (String.ofList after) := by
      rw [hoffset, ← hsize, ← String.utf8ByteSize_append, hs, slice_suffix]
    have hinside : ¬ s.utf8ByteSize ≤ closingOffset s := by
      rw [hoffset, hs, String.utf8ByteSize_append, String.utf8ByteSize_append, hsize]
      omega
    rw [if_neg hinside, hbody]
    simp only [bind, Except.bind, unquote_eq, String.toList_ofList]
    cases unescape body with
    | none => rfl
    | some value => simp only [hafter]; rfl

/-! ## Pairs -/

theorem behind?_of_cons (c : Char) (rest : List Char) :
    behind? c (String.ofList (c :: rest)) = some (String.ofList rest) := by
  rw [behind?, String.toList_ofList]
  exact if_pos rfl

theorem behind?_of_not_cons {c : Char} {cs : List Char} (h : ∀ rest, cs ≠ c :: rest) :
    behind? c (String.ofList cs) = none := by
  rw [behind?, String.toList_ofList]
  cases cs with
  | nil => rfl
  | cons d cs => exact if_neg fun hd => h cs (by rw [hd])

/-- What stands behind a key, found by characters: a colon and a body in quotes. -/
def keyValue : List Char → Except TagError (String × String)
  | ':' :: '"' :: rest => bodyValue rest
  | ':' :: _ => .error .valueSyntax
  | _ => .error .pairSyntax

/-- A pair is a key and what stands behind it. -/
theorem pair_eq (s : List Char) :
    (pair s).map (fun (p, after) => (p, String.ofList after)) =
      if (s.takeWhile isKeyChar).isEmpty then .error .keySyntax
      else (keyValue (s.dropWhile isKeyChar)).map fun (value, after) =>
        (⟨String.ofList (s.takeWhile isKeyChar), value⟩, after) := by
  rw [pair]
  split
  · rfl
  · generalize s.dropWhile isKeyChar = more
    split
    · next body =>
      simp only [keyValue, bodyValue]
      cases closing body with
      | none => rfl
      | some x => cases hx : unescape x.1 <;> simp only [hx] <;> rfl
    · next rest hrest =>
      rw [keyValue.eq_2 rest hrest]
      rfl
    · next hquote hcolon =>
      rw [keyValue.eq_3 _ hquote hcolon]
      rfl

theorem valueBehind_eq (cs : List Char) :
    valueBehind (String.ofList cs) = .ok (keyValue cs) := by
  unfold keyValue
  split
  · next body =>
    simp only [valueBehind, behind?_of_cons, quoted_eq, String.toList_ofList]
  · next rest hrest =>
    simp only [valueBehind, behind?_of_cons]
    rw [behind?_of_not_cons]
    exact hrest
  · next hcolon hne =>
    simp only [valueBehind, behind?_of_not_cons hne]

/-- The first pair of a text, found by characters, and the text after it. -/
def firstPair (s : List Char) : Except TagError (Option (Pair × String)) :=
  match s.dropWhile (· == ' ') with
  | [] => .ok none
  | c :: rest => (pair (c :: rest)).map fun (p, after) => some (p, String.ofList after)

/-- A pair is read as by characters. -/
theorem nextPair_eq (text : String) : nextPair text = .ok (firstPair text.toList) := by
  have hpair : ∀ s, (pair s).map (fun (p, after) => some (p, String.ofList after)) =
      ((pair s).map fun (p, after) => (p, String.ofList after)).map some := by
    intro s
    cases pair s <;> rfl
  rw [nextPair, firstPair, String.toList_ofList]
  cases htrim : text.toList.dropWhile (· == ' ') with
  | nil => rfl
  | cons c rest =>
    have hne : (String.ofList (c :: rest)).isEmpty = false := by simp
    have hsplit : String.ofList (c :: rest) = String.ofList ((c :: rest).takeWhile isKeyChar) ++
        String.ofList ((c :: rest).dropWhile isKeyChar) := by
      rw [← String.ofList_append, List.takeWhile_append_dropWhile]
    have hkey := slice_prefix (String.ofList ((c :: rest).takeWhile isKeyChar))
      (String.ofList ((c :: rest).dropWhile isKeyChar))
    have hmore := slice_suffix (String.ofList ((c :: rest).takeWhile isKeyChar))
      (String.ofList ((c :: rest).dropWhile isKeyChar))
    rw [← hsplit] at hkey hmore
    dsimp only
    rw [hne, hkey, hmore, hpair, pair_eq]
    cases (c :: rest).takeWhile isKeyChar with
    | nil => rfl
    | cons k key =>
      have hsize : (String.ofList (k :: key)).utf8ByteSize ≠ 0 := by
        rw [Ne, String.utf8ByteSize_eq_zero_iff]
        simp
      rw [if_neg (by simp), if_neg hsize, if_neg (by simp)]
      simp only [bind, Except.bind, valueBehind_eq]
      cases keyValue ((c :: rest).dropWhile isKeyChar) <;> rfl

/-- All pairs are the first one and those of the text after it. -/
theorem pairs_eq_firstPair (s : List Char) :
    Tag.pairs s = match firstPair s with
      | .error e => .error e
      | .ok none => .ok []
      | .ok (some (p, after)) => (Tag.pairs after.toList).map (p :: ·) := by
  rw [firstPair]
  cases htrim : s.dropWhile (· == ' ') with
  | nil => rw [pairs_of_spaces htrim]
  | cons c rest =>
    cases hp : pair (c :: rest) with
    | error e =>
      rw [pairs_of_pair_error htrim hp]
      simp only [hp, Except.map]
    | ok x =>
      rw [pairs_of_pair (htrim ▸ hp)]
      simp only [hp, Except.map, String.toList_ofList]

/-- All pairs are read as by characters. -/
theorem pairs_eq (text : String) : Scanner.pairs text = .ok (Tag.pairs text.toList) := by
  fun_induction Scanner.pairs text with
  | case1 text fault h => exact absurd ((nextPair_eq text).symm.trans h) (by simp)
  | case2 text e h =>
    rw [pairs_eq_firstPair, Except.ok.inj ((nextPair_eq text).symm.trans h)]
  | case3 text h =>
    rw [pairs_eq_firstPair, Except.ok.inj ((nextPair_eq text).symm.trans h)]
  | case4 text p after h ih =>
    rw [pairs_eq_firstPair, Except.ok.inj ((nextPair_eq text).symm.trans h), ih]
    rfl

/-! ## Literals -/

/-- A text between two equal characters. -/
theorem ofList_between (c : Char) (inner : List Char) :
    String.ofList (c :: (inner ++ [c])) =
      String.ofList [c] ++ String.ofList inner ++ String.ofList [c] := by
  rw [← String.ofList_append, ← String.ofList_append]
  rfl

/-- A character of one byte is at both ends of a text of two bytes or more exactly if it stands
    there twice. -/
theorem isBetween_iff {c : Char} (hc : (String.ofList [c]).utf8ByteSize = 1) {s : String} :
    isBetween c s = true ↔ ∃ inner, s = String.ofList (c :: (inner ++ [c])) := by
  simp only [isBetween, Bool.and_eq_true, decide_eq_true_eq, beq_iff_eq, and_assoc]
  constructor
  · rintro ⟨hsize, hfirst, hlast⟩
    obtain ⟨rest, hs⟩ := List.head?_eq_some_iff.mp hfirst
    obtain ⟨front, hfront⟩ := List.getLast?_eq_some_iff.mp hlast
    cases front with
    | nil =>
      have hone : s = String.ofList [c] := by
        rw [← String.ofList_toList (s := s), hfront, List.nil_append]
      rw [hone, hc] at hsize
      exact absurd hsize (by decide)
    | cons d inner =>
      obtain ⟨rfl, -⟩ := List.cons.inj (hs.symm.trans hfront)
      exact ⟨inner, by rw [← String.ofList_toList (s := s), hfront, List.cons_append]⟩
  · rintro ⟨inner, rfl⟩
    refine ⟨?_, ?_, ?_⟩
    · rw [ofList_between, String.utf8ByteSize_append, String.utf8ByteSize_append, hc]
      omega
    · rw [String.toList_ofList, List.head?_cons]
    · rw [String.toList_ofList, ← List.cons_append, List.getLast?_concat]

theorem slice_between {c : Char} (hc : (String.ofList [c]).utf8ByteSize = 1) (inner : List Char) :
    slice (String.ofList (c :: (inner ++ [c]))) 1
      ((String.ofList (c :: (inner ++ [c]))).utf8ByteSize - 1) = .ok (String.ofList inner) := by
  have hs := ofList_between c inner
  refine slice_eq_ok_iff.mpr ⟨_, _, hs, hc.symm, ?_⟩
  rw [hs, String.utf8ByteSize_append, String.utf8ByteSize_append, hc]
  omega

/-- A literal that stands for no text is named by the error as it is. -/
theorem literalText_eq_error {literal : String} (h : ∀ text, ¬ Quotes literal text) :
    Tag.literalText literal = .error (.literal literal) := by
  cases hliteral : Tag.literalText literal with
  | ok text => exact absurd (literalText_eq_ok_iff.mp hliteral) (h text)
  | error e =>
    unfold Tag.literalText at hliteral
    dsimp only at hliteral
    split at hliteral
    · exact hliteral.symm
    · split at hliteral
      · exact absurd hliteral nofun
      · split at hliteral
        · split at hliteral
          · exact absurd hliteral nofun
          · exact hliteral.symm
        · exact hliteral.symm

/-- A literal is taken apart as by characters. -/
theorem literalText_eq (literal : String) :
    Scanner.literalText literal = .ok ((Tag.literalText literal).map String.ofList) := by
  have hraw : (String.ofList ['\x60']).utf8ByteSize = 1 := rfl
  have hquote : (String.ofList ['"']).utf8ByteSize = 1 := rfl
  rw [Scanner.literalText]
  by_cases hbetween : isBetween '\x60' literal
  · obtain ⟨inner, rfl⟩ := (isBetween_iff hraw).mp hbetween
    rw [if_pos hbetween, slice_between hraw, literalText_eq_ok_iff.mpr (.raw inner)]
    rfl
  · rw [if_neg hbetween]
    by_cases hbetween' : isBetween '"' literal
    · obtain ⟨inner, rfl⟩ := (isBetween_iff hquote).mp hbetween'
      rw [if_pos hbetween', slice_between hquote]
      simp only [bind, Except.bind, unquote_eq, String.toList_ofList]
      cases hinner : unescape inner with
      | none =>
        rw [literalText_eq_error]
        · rfl
        · intro text hquotes
          have henclosed := literalText_enclosed.mp (literalText_eq_ok_iff.mpr hquotes)
          rcases henclosed with ⟨hq, -⟩ | ⟨-, hspells⟩
          · exact absurd hq (by decide)
          · exact absurd (hinner.symm.trans (unescape_eq_some_iff.mpr hspells)) nofun
      | some value =>
        have hspells : Spells inner (String.ofList value.toList) := by
          rw [String.ofList_toList]
          exact unescape_eq_some_iff.mp hinner
        rw [literalText_eq_ok_iff.mpr (.interpreted hspells), Except.map, String.ofList_toList]
        rfl
    · rw [if_neg hbetween', literalText_eq_error]
      · rfl
      · rintro text (_ | hspells)
        · exact hbetween ((isBetween_iff hraw).mpr ⟨text, rfl⟩)
        · exact hbetween' ((isBetween_iff hquote).mpr ⟨_, rfl⟩)

/-- A literal is read as by characters. -/
theorem parse_eq (literal : String) : Scanner.parse literal = .ok (Tag.parse literal) := by
  rw [Scanner.parse, literalText_eq, Tag.parse]
  cases Tag.literalText literal with
  | error e => rfl
  | ok text =>
    simp only [bind, Except.bind, Except.map, pairs_eq, String.toList_ofList]
    cases Tag.pairs text <;> rfl

/-- The quote that closes a body takes one byte, so that characters begin at it and behind it. -/
theorem isValid_of_closing {s : String} {body after : List Char}
    (h : closing s.toList = some (body, after)) :
    String.Pos.Raw.IsValid s ⟨closingOffset s⟩ ∧
      String.Pos.Raw.IsValid s ⟨closingOffset s + 1⟩ := by
  have hs := eq_of_closing h
  rw [closingOffset_of_some h, String.Pos.Raw.isValid_iff_exists_append,
    String.Pos.Raw.isValid_iff_exists_append]
  constructor
  · exact ⟨String.ofList body, _, hs.trans (String.append_assoc ..), rfl⟩
  · refine ⟨String.ofList body ++ "\"", _, hs, ?_⟩
    rw [String.rawEndPos, String.utf8ByteSize_append]
    rfl

/-- No literal makes the scanner fault.

    Reading by byte offsets gives a result for each literal and for each tag text, the one of
    reading by characters: all pieces are cut out between characters, and within the text. The
    search for a closing quote stops at the quote that the search by characters finds, whatever
    character a backslash stands before, and goes to the end of the text if there is none. Each
    round takes something off the text, and no number in an escape needs more than 32 bits. -/
theorem scanner_never_faults :
    (∀ literal, Scanner.parse literal = .ok (Tag.parse literal)) ∧
      (∀ text, Scanner.pairs text = .ok (Tag.pairs text.toList)) ∧
      (∀ s body after, closing s.toList = some (body, after) →
        closingOffset s = (String.ofList body).utf8ByteSize ∧
          String.Pos.Raw.IsValid s ⟨closingOffset s⟩ ∧
          String.Pos.Raw.IsValid s ⟨closingOffset s + 1⟩) ∧
      (∀ s, closing s.toList = none → s.utf8ByteSize ≤ closingOffset s) ∧
      (∀ text p after, nextPair text = .ok (.ok (some (p, after))) →
        after.length < text.length) ∧
      (∀ s, escape s = .ok (escape? s)) ∧
      (∀ count s, count ≤ 8 → number 16 count 0 s = .ok (digits? 16 count s)) ∧
      ∀ c d s, digit? 8 c = some d → number 8 2 d s = .ok (digits? 8 3 (c :: s)) := by
  refine ⟨parse_eq, pairs_eq, ?_, ?_, ?_, escape_eq, ?_, ?_⟩
  · exact fun s body after h => ⟨closingOffset_of_some h, isValid_of_closing h⟩
  · exact fun s => closingOffset_of_none
  · exact fun text p after => length_lt_of_nextPair
  · exact fun count s hcount => number_hex hcount s
  · exact fun c d s hd => number_octal hd s

/-- A backslash before a character of two bytes, and one that is all of a text; a pair; the largest
    number of eight digits, and an octal escape. -/
theorem scanner_never_faults_accent :
    (closingOffset "\\é\" x" = 3 ∧ String.Pos.Raw.IsValid "\\é\" x" ⟨4⟩) ∧
      1 ≤ closingOffset "\\" ∧
      (nextPair "k:\"é\" x" = .ok (.ok (some (⟨"k", "é"⟩, " x"))) ∧ " x".length < 7) ∧
      number 16 8 0 "FFFFFFFF".toList = .ok (some (4294967295, [])) ∧
      number 8 2 3 ['7', '7'] = .ok (some (255, [])) := by
  obtain ⟨-, -, hsome, hnone, hpair, -, hhex, hoctal⟩ := scanner_never_faults
  have hclosing : closing "\\é\" x".toList = some (['\\', 'é'], [' ', 'x']) := by decide
  have hend : closing "\\".toList = none := by decide
  have hnext : nextPair "k:\"é\" x" = .ok (.ok (some (⟨"k", "é"⟩, " x"))) := by
    rw [nextPair_eq]
    with_unfolding_all rfl
  have hoffset : closingOffset "\\é\" x" = 3 := (hsome _ _ _ hclosing).1
  have hbehind : String.Pos.Raw.IsValid "\\é\" x" ⟨closingOffset "\\é\" x" + 1⟩ :=
    (hsome _ _ _ hclosing).2.2
  rw [hoffset] at hbehind
  refine ⟨⟨hoffset, hbehind⟩, hnone _ hend, ⟨hnext, hpair _ _ _ hnext⟩, ?_, ?_⟩
  · exact (hhex 8 _ (by decide)).trans (by decide)
  · exact (hoctal '3' 3 _ (by decide)).trans (by decide)

end CallSchema.Tag.Scanner
