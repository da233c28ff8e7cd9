import CallSchema.Tag
import CallSchema.Proofs.Spelling
import Mathlib.Data.List.TakeWhile

/-!
Struct tags as they are written, and what is read from them.

A `Written` tag is the spaces, keys and bodies of a tag text, with the value that each body spells.
Only keys that may stand in a tag can be in it, and only values that their bodies spell.

1. `pairs_text`, `exists_written`: reading gives the pairs of a written tag, and succeeds on the
   texts of written tags only.
2. `Written.text_injective`: a text is written in one way at most. Spaces end at a key, a key ends
   at its colon, and a body at the quote that closes it.
3. `literalText_eq_ok_iff`: what a tag literal stands for, in both of its forms. The interpreted
   form quotes a second time, around the quotes of the bodies.
-/

namespace CallSchema.Tag

/-! ## Pairs -/

/-- The key may stand in a tag. -/
structure IsKey (key : String) : Prop where
  ne_empty : key ≠ ""
  chars : ∀ c ∈ key.toList, ' ' < c ∧ c ≠ ':' ∧ c ≠ '"' ∧ c ≠ '\x7f'

/-- A pair as it is written: the key as it is, and a body that spells the value. -/
@[ext]
structure WrittenPair where
  key : String
  value : String
  body : List Char
  isKey : IsKey key
  spells : Spells body value

namespace WrittenPair

/-- The pair `key:"body"`. -/
def text (w : WrittenPair) : List Char := w.key.toList ++ ':' :: '"' :: (w.body ++ ['"'])

/-- What is written. -/
def pair (w : WrittenPair) : Pair := ⟨w.key, w.value⟩

end WrittenPair

theorem isKeyChar_iff {c : Char} :
    isKeyChar c = true ↔ ' ' < c ∧ c ≠ ':' ∧ c ≠ '"' ∧ c ≠ '\x7f' := by
  simp only [isKeyChar, Bool.and_eq_true, decide_eq_true_eq, bne_iff_ne, and_assoc]

theorem IsKey.isKeyChar {key : String} (h : IsKey key) : ∀ c ∈ key.toList, isKeyChar c = true :=
  fun c hc => isKeyChar_iff.mpr (h.chars c hc)

theorem IsKey.isEmpty_toList {key : String} (h : IsKey key) : key.toList.isEmpty = false := by
  rw [List.isEmpty_eq_false_iff, Ne, String.toList_eq_nil_iff]
  exact h.ne_empty

theorem IsKey.exists_eq_cons {key : String} (h : IsKey key) :
    ∃ c cs, key.toList = c :: cs ∧ c ≠ ' ' := by
  cases hkey : key.toList with
  | nil => exact absurd (String.toList_eq_nil_iff.mp hkey) h.ne_empty
  | cons c cs =>
    refine ⟨c, cs, rfl, ?_⟩
    rintro rfl
    exact absurd (h.chars ' ' (by simp [hkey])).1 (by decide)

/-- A key ends where the text behind it does not go on with a character of a key. -/
theorem IsKey.takeWhile_append {key : String} (h : IsKey key) {s : List Char}
    (hs : ∀ c ∈ s.head?, Tag.isKeyChar c = false) :
    (key.toList ++ s).takeWhile Tag.isKeyChar = key.toList := by
  rw [List.takeWhile_append_of_pos h.isKeyChar]
  cases s with
  | nil => simp
  | cons c s => simp [hs c rfl]

theorem IsKey.dropWhile_append {key : String} (h : IsKey key) {s : List Char}
    (hs : ∀ c ∈ s.head?, Tag.isKeyChar c = false) :
    (key.toList ++ s).dropWhile Tag.isKeyChar = s := by
  rw [List.dropWhile_append_of_pos h.isKeyChar]
  cases s with
  | nil => rfl
  | cons c s => simp [hs c rfl]

theorem isKeyChar_colon (s : List Char) : ∀ c ∈ (':' :: s).head?, isKeyChar c = false := by
  intro c hc
  obtain rfl : ':' = c := by simpa using hc
  decide

theorem isKey_takeWhile {s : List Char} (h : (s.takeWhile isKeyChar).isEmpty = false) :
    IsKey (String.ofList (s.takeWhile isKeyChar)) := by
  constructor
  · intro hempty
    simp [String.ofList_eq_empty_iff.mp hempty] at h
  · intro c hc
    rw [String.toList_ofList] at hc
    exact isKeyChar_iff.mp (List.mem_takeWhile_imp hc)

theorem WrittenPair.text_append (w : WrittenPair) (s : List Char) :
    w.text ++ s = w.key.toList ++ ':' :: '"' :: (w.body ++ '"' :: s) := by
  simp [WrittenPair.text]

/-- Reading finds a written pair at the beginning of a text. -/
theorem pair_text_append (w : WrittenPair) (after : List Char) :
    pair (w.text ++ after) = .ok (w.pair, after) := by
  rw [w.text_append, pair, w.isKey.takeWhile_append (isKeyChar_colon _),
    w.isKey.dropWhile_append (isKeyChar_colon _), w.isKey.isEmpty_toList]
  simp only [w.spells.closing, unescape_eq_some_iff.mpr w.spells, String.ofList_toList]
  rfl

/-- Whatever is read as a pair is written there. -/
theorem exists_writtenPair {s after : List Char} {p : Pair} (h : pair s = .ok (p, after)) :
    ∃ w : WrittenPair, w.pair = p ∧ s = w.text ++ after := by
  have hs : s = s.takeWhile isKeyChar ++ s.dropWhile isKeyChar := by simp
  simp only [pair] at h
  split at h
  · simp at h
  · next hkey =>
    split at h
    · next rest hrest =>
      split at h
      · simp at h
      · next body after' hclosing =>
        split at h
        · simp at h
        · next value hvalue =>
          obtain ⟨rfl, rfl⟩ := Prod.mk.inj (Except.ok.inj h)
          refine ⟨⟨_, value, body, isKey_takeWhile (by simpa using hkey),
            unescape_eq_some_iff.mp hvalue⟩, rfl, ?_⟩
          rw [WrittenPair.text_append, String.toList_ofList, ← closing_split hclosing, ← hrest]
          exact hs
    · simp at h
    · simp at h

/-- Where a text begins with a pair, it does so in one way. -/
theorem WrittenPair.text_append_inj {w w' : WrittenPair} {s s' : List Char}
    (h : w.text ++ s = w'.text ++ s') : w = w' ∧ s = s' := by
  rw [w.text_append, w'.text_append] at h
  -- Both readers find where the part ends that they read: the key at its colon, the body at its
  -- quote. The value is no part of the text, but the body spells no other.
  have hkey : w.key.toList = w'.key.toList := by
    rw [← w.isKey.takeWhile_append (isKeyChar_colon _), h,
      w'.isKey.takeWhile_append (isKeyChar_colon _)]
  rw [hkey] at h
  have hbody : w.body ++ '"' :: s = w'.body ++ '"' :: s' := by
    simpa using List.append_cancel_left h
  have hclosing := w.spells.closing s
  rw [hbody, w'.spells.closing s'] at hclosing
  obtain ⟨hbody, hs⟩ := Prod.mk.inj (Option.some.inj hclosing)
  have hvalue : some w.value = some w'.value := by
    rw [← unescape_eq_some_iff.mpr w.spells, ← unescape_eq_some_iff.mpr w'.spells, hbody]
  exact ⟨WrittenPair.ext (String.toList_inj.mp hkey) (Option.some.inj hvalue) hbody.symm,
    hs.symm⟩

/-! ## Tags -/

/-- A tag as it is written: spaces before each pair, and spaces at the end. -/
inductive Written where
  | done (spaces : Nat)
  | cons (spaces : Nat) (first : WrittenPair) (rest : Written)

namespace Written

/-- The text of the tag. -/
def text : Written → List Char
  | done spaces => List.replicate spaces ' '
  | cons spaces first rest => List.replicate spaces ' ' ++ (first.text ++ rest.text)

/-- The pairs of the tag in order. -/
def pairs : Written → List Pair
  | done _ => []
  | cons _ first rest => first.pair :: rest.pairs

end Written

theorem WrittenPair.exists_text_eq_cons (w : WrittenPair) : ∃ c s, w.text = c :: s ∧ c ≠ ' ' := by
  obtain ⟨c, cs, hkey, hc⟩ := w.isKey.exists_eq_cons
  exact ⟨c, cs ++ ':' :: '"' :: (w.body ++ ['"']), by rw [text, hkey]; rfl, hc⟩

theorem dropWhile_spaces (n : Nat) (s : List Char) :
    (List.replicate n ' ' ++ s).dropWhile (· == ' ') = s.dropWhile (· == ' ') := by
  have hspaces : ∀ c ∈ List.replicate n ' ', (c == ' ') = true := by
    intro c hc
    rw [List.eq_of_mem_replicate hc]
    rfl
  rw [List.dropWhile_append_of_pos hspaces]

theorem dropWhile_text_done (n : Nat) : (Written.done n).text.dropWhile (· == ' ') = [] := by
  rw [Written.text, ← List.append_nil (List.replicate n ' '), dropWhile_spaces]
  rfl

/-- The spaces before a pair end where it begins. -/
theorem dropWhile_text_cons (n : Nat) (first : WrittenPair) (rest : Written) (s : List Char) :
    ((Written.cons n first rest).text ++ s).dropWhile (· == ' ') =
      first.text ++ (rest.text ++ s) := by
  obtain ⟨c, text, htext, hc⟩ := first.exists_text_eq_cons
  rw [Written.text, List.append_assoc, List.append_assoc, dropWhile_spaces, htext,
    List.cons_append, List.dropWhile_cons_of_neg (by simpa using hc)]

theorem pairs_of_spaces {s : List Char} (h : s.dropWhile (· == ' ') = []) : pairs s = .ok [] := by
  rw [pairs]
  split
  · rfl
  · next hs => exact absurd (hs.symm.trans h) (by simp)

theorem pairs_of_pair {s after : List Char} {p : Pair}
    (h : pair (s.dropWhile (· == ' ')) = .ok (p, after)) :
    pairs s = (pairs after).map (p :: ·) := by
  rw [pairs]
  split
  · next hs => simp [hs, pair] at h
  · next c rest hs =>
    rw [hs] at h
    split
    · next e he => exact absurd (he.symm.trans h) (by simp)
    · next p' after' hp =>
      obtain ⟨rfl, rfl⟩ := Prod.mk.inj (Except.ok.inj (hp.symm.trans h))
      rfl

theorem pairs_of_pair_error {s rest : List Char} {c : Char} {e : TagError}
    (hs : s.dropWhile (· == ' ') = c :: rest) (h : pair (c :: rest) = .error e) :
    pairs s = .error e := by
  rw [pairs]
  split
  · next hnil => exact absurd (hnil.symm.trans hs) (by simp)
  · next c' rest' hcons =>
    rw [hs.symm.trans hcons] at h
    split
    · next e' he' =>
      obtain rfl := Except.error.inj (he'.symm.trans h)
      rfl
    · next p after hp => exact absurd (hp.symm.trans h) (by simp)

/-- Spaces before a text do not count. -/
theorem pairs_spaces_append (n : Nat) (s : List Char) :
    pairs (List.replicate n ' ' ++ s) = pairs s := by
  have hdrop := dropWhile_spaces n s
  cases hs : s.dropWhile (· == ' ') with
  | nil => rw [pairs_of_spaces hs, pairs_of_spaces (hdrop.trans hs)]
  | cons c rest =>
    rw [hs] at hdrop
    cases hp : pair (c :: rest) with
    | error e => rw [pairs_of_pair_error hs hp, pairs_of_pair_error hdrop hp]
    | ok r =>
      rw [← hs] at hp
      rw [pairs_of_pair hp, pairs_of_pair (hdrop.trans hs.symm ▸ hp)]

/-- Reading goes on behind the text of a written tag, with its pairs in front. -/
theorem pairs_text_append (tag : Written) (s : List Char) :
    pairs (tag.text ++ s) = (pairs s).map (tag.pairs ++ ·) := by
  induction tag with
  | done n =>
    rw [Written.text, pairs_spaces_append]
    cases pairs s <;> rfl
  | cons n first rest ih =>
    have hfirst : pair (((Written.cons n first rest).text ++ s).dropWhile (· == ' ')) =
        .ok (first.pair, rest.text ++ s) := by
      rw [dropWhile_text_cons, pair_text_append]
    rw [pairs_of_pair hfirst, ih]
    cases pairs s <;> rfl

/-- Reading the text of a written tag gives its pairs. -/
theorem pairs_text (tag : Written) : pairs tag.text = .ok tag.pairs := by
  have hnil : pairs [] = .ok [] := pairs_of_spaces rfl
  have htext := pairs_text_append tag []
  rw [hnil, List.append_nil] at htext
  simpa [Except.map] using htext

theorem exists_spaces (s : List Char) :
    ∃ n, s = List.replicate n ' ' ++ s.dropWhile (· == ' ') := by
  refine ⟨(s.takeWhile (· == ' ')).length, ?_⟩
  have hspaces : s.takeWhile (· == ' ') = List.replicate (s.takeWhile (· == ' ')).length ' ' :=
    List.eq_replicate_of_mem fun c hc => by simpa using List.mem_takeWhile_imp hc
  rw [← hspaces, List.takeWhile_append_dropWhile]

/-- Whatever is read is written. -/
theorem exists_written {text : List Char} {ps : List Pair} (h : pairs text = .ok ps) :
    ∃ tag : Written, tag.text = text ∧ tag.pairs = ps := by
  fun_induction pairs text generalizing ps with
  | case1 s hs =>
    obtain ⟨n, hn⟩ := exists_spaces s
    obtain rfl := Except.ok.inj h
    exact ⟨.done n, by rw [hn, hs, List.append_nil]; rfl, rfl⟩
  | case2 => exact absurd h (by simp)
  | case3 s c rest hs p after hp ih =>
    obtain ⟨n, hn⟩ := exists_spaces s
    obtain ⟨w, rfl, hw⟩ := exists_writtenPair hp
    -- The text is the spaces, the pair and what is behind it.
    cases hafter : pairs after with
    | error e => simp [hafter, Except.map] at h
    | ok more =>
      obtain ⟨tag, htext, hmore⟩ := ih hafter
      rw [hafter] at h
      obtain rfl := Except.ok.inj h
      refine ⟨.cons n w tag, ?_, ?_⟩
      · rw [Written.text, htext, ← hw, ← hs, ← hn]
      · rw [Written.pairs, hmore]

/-- The spaces before a text are as many as their number. -/
theorem spaces_inj {n m : Nat} {s : List Char}
    (h : List.replicate n ' ' ++ s = List.replicate m ' ' ++ s) : n = m := by
  have hlength := congrArg List.length h
  simpa using hlength

/-- Spaces alone are no text with a pair. -/
theorem text_done_ne_text_cons (n m : Nat) (first : WrittenPair) (rest : Written) :
    (Written.done n).text ≠ (Written.cons m first rest).text := by
  intro h
  obtain ⟨c, s, htext, -⟩ := first.exists_text_eq_cons
  have hdrop := dropWhile_text_cons m first rest []
  rw [← h, List.append_nil, dropWhile_text_done, htext] at hdrop
  exact absurd hdrop (by simp)

theorem Written.text_injective : Function.Injective Written.text := by
  intro tag tag' h
  induction tag generalizing tag' with
  | done n =>
    cases tag' with
    | done m =>
      have hspaces : List.replicate n ' ' ++ [] = List.replicate m ' ' ++ [] := by
        rw [List.append_nil, List.append_nil]
        exact h
      rw [spaces_inj hspaces]
    | cons m first' rest' => exact absurd h (text_done_ne_text_cons n m first' rest')
  | cons n first rest ih =>
    cases tag' with
    | done m => exact absurd h.symm (text_done_ne_text_cons m n first rest)
    | cons m first' rest' =>
      have hdrop : first.text ++ (rest.text ++ []) = first'.text ++ (rest'.text ++ []) := by
        rw [← dropWhile_text_cons n, ← dropWhile_text_cons m, h]
      obtain ⟨rfl, hrest⟩ := WrittenPair.text_append_inj hdrop
      obtain rfl := ih (by simpa using hrest)
      rw [spaces_inj h]

/-! ## Literals -/

/-- The literal stands for the text, in one of the two forms: as it is between backquotes, or
    spelled between double quotes. -/
inductive Quotes : String → List Char → Prop
  | raw (text : List Char) : Quotes (String.ofList ('\x60' :: (text ++ ['\x60']))) text
  | interpreted {body text : List Char} (h : Spells body (String.ofList text)) :
      Quotes (String.ofList ('"' :: (body ++ ['"']))) text

/-- What is between two quotes. -/
theorem exists_enclosed {s : List Char} (hlength : ¬ s.length < 2) (hends : s.head? = s.getLast?) :
    ∃ q, s = q :: ((s.drop 1).dropLast ++ [q]) := by
  cases s with
  | nil => simp at hlength
  | cons q rest =>
    have hne : rest ≠ [] := by
      rintro rfl
      simp at hlength
    have hlast : rest.getLast hne = q := by
      simpa [List.getLast?_cons, List.getLast?_eq_getLast_of_ne_nil hne] using hends.symm
    refine ⟨q, ?_⟩
    rw [List.drop_one, List.tail_cons]
    conv => lhs; rw [← List.dropLast_append_getLast hne, hlast]

/-- What a text between two equal characters stands for. -/
theorem literalText_enclosed {q : Char} {inner text : List Char} :
    literalText (String.ofList (q :: (inner ++ [q]))) = .ok text ↔
      q = '\x60' ∧ inner = text ∨ q = '"' ∧ Spells inner (String.ofList text) := by
  have hlast : (q :: (inner ++ [q])).getLast? = some q := by
    rw [← List.cons_append, List.getLast?_concat]
  have henclosed : ¬ ((q :: (inner ++ [q])).length < 2 ∨
      some q ≠ (q :: (inner ++ [q])).getLast?) := by
    simp [hlast]
  simp only [literalText, String.toList_ofList, List.head?_cons, List.drop_one,
    List.tail_cons, List.dropLast_concat, Option.some.injEq]
  rw [if_neg henclosed, ← unescape_eq_some_iff]
  by_cases hraw : q = '\x60'
  · subst hraw
    simp
  · by_cases hquote : q = '"'
    · subst hquote
      cases unescape inner with
      | none => simp
      | some value =>
        have hvalue : value = String.ofList text ↔ value.toList = text := by
          rw [← String.toList_inj, String.toList_ofList]
        simp [hvalue]
    · simp [hraw, hquote]

/-- The text that is found is the one that the literal stands for. -/
theorem literalText_eq_ok_iff {literal : String} {text : List Char} :
    literalText literal = .ok text ↔ Quotes literal text := by
  constructor
  · intro h
    have henclosed : ∃ q inner, literal = String.ofList (q :: (inner ++ [q])) := by
      simp only [literalText] at h
      split at h
      · simp at h
      · next hends =>
        obtain ⟨hlength, hends⟩ := not_or.mp hends
        obtain ⟨q, hq⟩ := exists_enclosed hlength (not_not.mp hends)
        exact ⟨q, _, by rw [← hq, String.ofList_toList]⟩
    obtain ⟨q, inner, rfl⟩ := henclosed
    rcases literalText_enclosed.mp h with ⟨rfl, rfl⟩ | ⟨rfl, hspells⟩
    · exact .raw inner
    · exact .interpreted hspells
  · intro h
    cases h with
    | raw => exact literalText_enclosed.mpr (.inl ⟨rfl, rfl⟩)
    | interpreted hspells => exact literalText_enclosed.mpr (.inr ⟨rfl, hspells⟩)

/-- Every list of pairs with keys that may stand in a tag can be written. -/
theorem exists_written_of_isKey {ps : List Pair} (h : ∀ p ∈ ps, IsKey p.key) :
    ∃ tag : Written, tag.pairs = ps := by
  induction ps with
  | nil => exact ⟨.done 0, rfl⟩
  | cons p ps ih =>
    obtain ⟨tag, htag⟩ := ih fun p hp => h p (List.mem_cons_of_mem _ hp)
    have hkey : IsKey p.key := h p List.mem_cons_self
    refine ⟨.cons 0 ⟨p.key, p.value, spelling p.value, hkey, spells_spelling p.value⟩ tag, ?_⟩
    rw [Written.pairs, htag]
    rfl

/-- Tags are read exactly as they are written.

    Reading a text succeeds if it is the text of a written tag, and gives the pairs of that tag; no
    text is that of two written tags. What a literal gives is what is written in the text that it
    stands for, in either form. So every list of pairs with keys that may stand in a tag is read
    back from whatever spelling of it and from both forms of a literal, and there are such. -/
theorem pairs_eq_ok_iff_written :
    (∀ text ps, pairs text = .ok ps ↔ ∃ tag : Written, tag.text = text ∧ tag.pairs = ps) ∧
      Function.Injective Written.text ∧
      (∀ literal ps, (literalText literal >>= pairs) = .ok ps ↔
        ∃ tag : Written, Quotes literal tag.text ∧ tag.pairs = ps) ∧
      ∀ ps : List Pair, (∀ p ∈ ps, IsKey p.key) → ∃ tag : Written, tag.pairs = ps := by
  have hpairs : ∀ text ps, pairs text = .ok ps ↔
      ∃ tag : Written, tag.text = text ∧ tag.pairs = ps := by
    intro text ps
    constructor
    · exact exists_written
    · rintro ⟨tag, rfl, rfl⟩
      exact pairs_text tag
  refine ⟨hpairs, Written.text_injective, fun literal ps => ?_, fun _ => exists_written_of_isKey⟩
  constructor
  · intro h
    cases htext : literalText literal with
    | error e => simp [htext, bind, Except.bind] at h
    | ok text =>
      obtain ⟨tag, rfl, rfl⟩ := exists_written ((congrArg (· >>= pairs) htext).symm.trans h)
      exact ⟨tag, literalText_eq_ok_iff.mp htext, rfl⟩
  · rintro ⟨tag, hquotes, rfl⟩
    rw [literalText_eq_ok_iff.mpr hquotes]
    exact pairs_text tag

/-- The pair `k:"\101"`, whose body is the octal escape of a letter. -/
def octalPair : WrittenPair where
  key := "k"
  value := "A"
  body := ['\\', '1', '0', '1']
  isKey := by
    refine ⟨by decide, fun c hc => ?_⟩
    obtain rfl : c = 'k' := by simpa using hc
    decide
  spells := by
    have hzero : DigitValue 8 '0' 0 := ⟨by decide, .inl (by decide)⟩
    have hone : DigitValue 8 '1' 1 := ⟨by decide, .inl (by decide)⟩
    have hdigits : Digits 8 ['1', '0', '1'] (65 : UInt8).toNat :=
      ⟨[1, 0, 1], .cons hone (.cons hzero (.cons hone .nil)), rfl⟩
    show Body (['\\', '1', '0', '1'] ++ []) ([65] ++ [])
    exact .cons (.octalByte rfl hdigits) .nil

/-- One pair, in both forms of a literal. -/
theorem pairs_eq_ok_iff_written_octal :
    (literalText "\x60 k:\"\\101\"\x60" >>= pairs) = .ok [⟨"k", "A"⟩] ∧
      (literalText "\" k:\\\"\\\\101\\\"\"" >>= pairs) = .ok [⟨"k", "A"⟩] ∧
      ∃ tag : Written, tag.pairs = [⟨"k", "A"⟩] := by
  have hkeys : ∀ p ∈ [octalPair.pair], IsKey p.key := by
    intro p hp
    obtain rfl := List.mem_singleton.mp hp
    exact octalPair.isKey
  obtain ⟨-, -, hliteral, hexists⟩ := pairs_eq_ok_iff_written
  have htext : (Written.cons 1 octalPair (.done 0)).text =
      [' ', 'k', ':', '"', '\\', '1', '0', '1', '"'] := by decide
  have hraw : Quotes "\x60 k:\"\\101\"\x60" (Written.cons 1 octalPair (.done 0)).text := by
    rw [htext]
    exact .raw [' ', 'k', ':', '"', '\\', '1', '0', '1', '"']
  have hspelled : spelling (String.ofList [' ', 'k', ':', '"', '\\', '1', '0', '1', '"']) =
      [' ', 'k', ':', '\\', '"', '\\', '\\', '1', '0', '1', '\\', '"'] := by decide
  have hinterpreted : Quotes "\" k:\\\"\\\\101\\\"\""
      (Written.cons 1 octalPair (.done 0)).text := by
    rw [htext]
    exact .interpreted (hspelled ▸ spells_spelling _)
  exact ⟨(hliteral _ _).mpr ⟨_, hraw, rfl⟩, (hliteral _ _).mpr ⟨_, hinterpreted, rfl⟩,
    hexists _ hkeys⟩

end CallSchema.Tag
