import CallSchema.Proofs.TagText

/-!
Tags that are put together from parts, and where reading them stops.

1. `pairs_append`: behind a tag that can be read, reading goes on as if the text began there.
2. `valueOf?_insert`: a pair says nothing if its key occurs before it, and nothing about other keys.
3. `pairs_eq_error_iff`: reading fails exactly where, behind what can be read, a text begins with a
   malformed pair, and with the error of that pair. `Malformed` says what is malformed without the
   reader: no key begins there, no colon follows the key, or no body that spells a value.
-/

namespace CallSchema.Tag

/-! ## Parts of a tag -/

theorem pairs_append {a : List Char} {ps : List Pair} (h : pairs a = .ok ps) (b : List Char) :
    pairs (a ++ b) = (pairs b).map (ps ++ ·) := by
  obtain ⟨tag, rfl, rfl⟩ := exists_written h
  exact pairs_text_append tag b

/-! ## Values -/

theorem valueOf?_eq_none_iff {key : String} {ps : List Pair} :
    valueOf? key ps = none ↔ ∀ p ∈ ps, p.key ≠ key := by
  simp [valueOf?]

theorem valueOf?_append (key : String) (ps qs : List Pair) :
    valueOf? key (ps ++ qs) = (valueOf? key ps).or (valueOf? key qs) := by
  simp only [valueOf?, List.find?_append, Option.map_or]

/-- Pairs behind a first one with their key have no say in its value. -/
theorem valueOf?_insert {key : String} {ps xs : List Pair}
    (h : ∀ x ∈ xs, x.key = key → ∃ p ∈ ps, p.key = key) (qs : List Pair) :
    valueOf? key (ps ++ (xs ++ qs)) = valueOf? key (ps ++ qs) := by
  rw [valueOf?_append, valueOf?_append, valueOf?_append]
  cases hps : valueOf? key ps with
  | some value => rfl
  | none =>
    have hxs : valueOf? key xs = none := by
      apply valueOf?_eq_none_iff.mpr
      intro x hx hkey
      obtain ⟨p, hp, hp'⟩ := h x hx hkey
      exact valueOf?_eq_none_iff.mp hps p hp hp'
    rw [hxs, Option.none_or]

/-- Only the values of the two keys are interpreted. -/
theorem ofPairs_congr {ps qs : List Pair} (henum : valueOf? "enum" ps = valueOf? "enum" qs)
    (hrequired : valueOf? "required" ps = valueOf? "required" qs) : ofPairs ps = ofPairs qs := by
  rw [ofPairs, ofPairs, henum, hrequired]

/-- More pairs in the middle say nothing if their keys are foreign or occur before. -/
theorem ofPairs_insert {ps xs : List Pair}
    (h : ∀ x ∈ xs, x.key ≠ "enum" ∧ x.key ≠ "required" ∨ ∃ p ∈ ps, p.key = x.key)
    (qs : List Pair) : ofPairs (ps ++ (xs ++ qs)) = ofPairs (ps ++ qs) := by
  apply ofPairs_congr
  · apply valueOf?_insert
    intro x hx hkey
    rcases h x hx with hforeign | hbefore
    · exact absurd hkey hforeign.1
    · rwa [hkey] at hbefore
  · apply valueOf?_insert
    intro x hx hkey
    rcases h x hx with hforeign | hbefore
    · exact absurd hkey hforeign.2
    · rwa [hkey] at hbefore

theorem parse_of_quotes {literal : String} {text : List Char} (h : Quotes literal text) :
    parse literal = pairs text >>= ofPairs := by
  rw [parse, literalText_eq_ok_iff.mpr h]
  rfl

/-! ## Malformed pairs -/

/-- The text begins with a malformed pair, and this is what is wrong with it. Anything may follow
    that does not mend it. -/
inductive Malformed : List Char → TagError → Prop
  /-- No key begins with the first character. -/
  | noKey {c : Char} {rest : List Char} (hspace : c ≠ ' ') (h : ¬ IsKey (String.singleton c)) :
      Malformed (c :: rest) .keySyntax
  /-- The key ends, and not at a colon. -/
  | noColon {key : String} {rest : List Char} (hkey : IsKey key)
      (h : ∀ c ∈ rest.head?, c ≠ ':' ∧ ¬ IsKey (String.singleton c)) :
      Malformed (key.toList ++ rest) .pairSyntax
  /-- What follows the colon is no quoted body that spells a value. -/
  | noValue {key : String} {rest : List Char} (hkey : IsKey key)
      (h : ∀ body value after, Spells body value → rest ≠ '"' :: (body ++ '"' :: after)) :
      Malformed (key.toList ++ ':' :: rest) .valueSyntax

theorem isKey_singleton_iff {c : Char} : IsKey (String.singleton c) ↔ isKeyChar c = true := by
  rw [isKeyChar_iff]
  constructor
  · intro h
    exact h.chars c (by simp)
  · intro h
    refine ⟨by simp, fun d hd => ?_⟩
    obtain rfl : d = c := by simpa using hd
    exact h

/-- A malformed pair is refused with its error. -/
theorem Malformed.pair_eq {s : List Char} {e : TagError} (h : Malformed s e) :
    pair s = .error e := by
  cases h with
  | @noKey c rest _ h =>
    have hc : ¬ isKeyChar c = true := fun hc => h (isKey_singleton_iff.mpr hc)
    rw [pair, List.takeWhile_cons_of_neg hc]
    rfl
  | @noColon key rest hkey h =>
    have hend : ∀ c ∈ rest.head?, isKeyChar c = false := fun c hc => by
      simpa using fun hc' => (h c hc).2 (isKey_singleton_iff.mpr hc')
    rw [pair, hkey.takeWhile_append hend, hkey.dropWhile_append hend,
      hkey.isEmpty_toList]
    cases rest with
    | nil => rfl
    | cons c rest =>
      have hcolon : c ≠ ':' := (h c rfl).1
      simp [hcolon]
  | @noValue key rest hkey h =>
    rw [pair, hkey.takeWhile_append (isKeyChar_colon rest),
      hkey.dropWhile_append (isKeyChar_colon rest), hkey.isEmpty_toList]
    cases rest with
    | nil => rfl
    | cons c rest =>
      by_cases hquote : c = '"'
      · subst hquote
        cases hclosing : closing rest with
        | none => simp [hclosing]
        | some found =>
          obtain ⟨body, after⟩ := found
          cases hvalue : unescape body with
          | none => simp [hclosing, hvalue]
          | some value =>
            obtain rfl := closing_split hclosing
            exact absurd rfl (h body value after (unescape_eq_some_iff.mp hvalue))
      · simp [hquote]

theorem Malformed.exists_eq_cons {s : List Char} {e : TagError} (h : Malformed s e) :
    ∃ c rest, s = c :: rest ∧ c ≠ ' ' := by
  have hcons : ∀ {key : String} (rest : List Char), IsKey key →
      ∃ c rest', key.toList ++ rest = c :: rest' ∧ c ≠ ' ' := by
    intro key rest hkey
    obtain ⟨c, cs, hlist, hc⟩ := hkey.exists_eq_cons
    exact ⟨c, cs ++ rest, by rw [hlist]; rfl, hc⟩
  cases h with
  | @noKey c rest hspace _ => exact ⟨c, rest, rfl, hspace⟩
  | noColon hkey _ => exact hcons _ hkey
  | noValue hkey _ => exact hcons _ hkey

theorem Malformed.pairs_eq {s : List Char} {e : TagError} (h : Malformed s e) :
    pairs s = .error e := by
  have hpair := h.pair_eq
  obtain ⟨c, rest, rfl, hc⟩ := h.exists_eq_cons
  exact pairs_of_pair_error (List.dropWhile_cons_of_neg (by simpa using hc)) hpair

/-- A text that begins with a character of a key begins with a key that does not go on. -/
theorem exists_isKey_append {c : Char} (hc : isKeyChar c = true) (rest : List Char) :
    ∃ key behind, IsKey key ∧ c :: rest = key.toList ++ behind ∧
      ∀ d ∈ behind.head?, isKeyChar d = false := by
  have hnil : ((c :: rest).takeWhile isKeyChar).isEmpty = false := by simp [hc]
  refine ⟨_, (c :: rest).dropWhile isKeyChar, isKey_takeWhile hnil, ?_, fun d hd => ?_⟩
  · rw [String.toList_ofList, List.takeWhile_append_dropWhile]
  · have hnot := List.head?_dropWhile_not isKeyChar (c :: rest)
    rwa [hd] at hnot

/-- A text that does not begin with a space begins with a pair or with a malformed one. -/
theorem written_or_malformed {c : Char} (hc : c ≠ ' ') (rest : List Char) :
    (∃ (w : WrittenPair) (after : List Char), c :: rest = w.text ++ after) ∨
      ∃ e, Malformed (c :: rest) e := by
  by_cases hkey : isKeyChar c = true
  · obtain ⟨key, behind, hisKey, hsplit, hend⟩ := exists_isKey_append hkey rest
    rw [hsplit]
    by_cases hcolon : ∃ after, behind = ':' :: after
    · obtain ⟨after, rfl⟩ := hcolon
      by_cases hvalue : ∃ body value more, Spells body value ∧ after = '"' :: (body ++ '"' :: more)
      · obtain ⟨body, value, more, hspells, rfl⟩ := hvalue
        let w : WrittenPair := ⟨key, value, body, hisKey, hspells⟩
        exact .inl ⟨w, more, (w.text_append more).symm⟩
      · refine .inr ⟨_, .noValue hisKey fun body value more hspells hafter => ?_⟩
        exact hvalue ⟨body, value, more, hspells, hafter⟩
    · refine .inr ⟨_, .noColon hisKey fun d hd => ⟨fun hd' => ?_, fun hd' => ?_⟩⟩
      · obtain ⟨after, hafter⟩ := List.head?_eq_some_iff.mp hd
        exact hcolon ⟨after, hd' ▸ hafter⟩
      · exact absurd (isKey_singleton_iff.mp hd') (by simp [hend d hd])
  · exact .inr ⟨_, .noKey hc fun h => hkey (isKey_singleton_iff.mp h)⟩

/-- What is refused as a pair is malformed. -/
theorem malformed_of_pair_eq {c : Char} (hc : c ≠ ' ') {rest : List Char} {e : TagError}
    (h : pair (c :: rest) = .error e) : Malformed (c :: rest) e := by
  rcases written_or_malformed hc rest with ⟨w, after, hw⟩ | ⟨e', hmalformed⟩
  · rw [hw, pair_text_append] at h
    simp at h
  · obtain rfl := Except.error.inj (hmalformed.pair_eq.symm.trans h)
    exact hmalformed

theorem ne_space_of_dropWhile {s rest : List Char} {c : Char}
    (h : s.dropWhile (· == ' ') = c :: rest) : c ≠ ' ' := by
  have hnot := List.head?_dropWhile_not (· == ' ') s
  rw [h] at hnot
  simpa using hnot

theorem exists_malformed {text : List Char} {e : TagError} (h : pairs text = .error e) :
    ∃ (tag : Written) (bad : List Char), text = tag.text ++ bad ∧ Malformed bad e := by
  fun_induction pairs text with
  | case1 => exact absurd h (by simp)
  | case2 s c rest hs e' hp =>
    obtain ⟨n, hn⟩ := exists_spaces s
    obtain rfl := Except.error.inj h
    exact ⟨.done n, c :: rest, hs ▸ hn, malformed_of_pair_eq (ne_space_of_dropWhile hs) hp⟩
  | case3 s c rest hs p after hp ih =>
    obtain ⟨n, hn⟩ := exists_spaces s
    obtain ⟨w, -, hw⟩ := exists_writtenPair hp
    cases hafter : pairs after with
    | ok more => simp [hafter, Except.map] at h
    | error e' =>
      rw [hafter] at h
      obtain rfl := Except.error.inj h
      obtain ⟨tag, bad, rfl, hmalformed⟩ := ih hafter
      refine ⟨.cons n w tag, bad, ?_, hmalformed⟩
      rw [hn, hs, hw, Written.text, List.append_assoc, List.append_assoc]

/-- Reading fails where, behind what can be read, a malformed pair begins. -/
theorem pairs_eq_error_iff {text : List Char} {e : TagError} :
    pairs text = .error e ↔
      ∃ a ps bad, text = a ++ bad ∧ pairs a = .ok ps ∧ Malformed bad e := by
  constructor
  · intro h
    obtain ⟨tag, bad, htext, hmalformed⟩ := exists_malformed h
    exact ⟨tag.text, tag.pairs, bad, htext, pairs_text tag, hmalformed⟩
  · intro h
    obtain ⟨a, ps, bad, rfl, ha, hmalformed⟩ := h
    rw [pairs_append ha, hmalformed.pairs_eq]
    rfl

/-- Tags are read part by part, every part is checked, and only the first pair of a key counts.

    Behind a tag that can be read, a text gives the pairs and the errors that it gives by itself. So
    more pairs between two parts of a tag change nothing in what its literal says, nor in the error
    of its values, if their keys are foreign or occur before. A text cannot be read exactly if a
    malformed pair begins behind a part that can be read, and then the literal fails with the error
    of that pair, whatever the values before it are. -/
theorem pairs_compose :
    (∀ a b ps, pairs a = .ok ps →
      (∀ qs, pairs b = .ok qs → pairs (a ++ b) = .ok (ps ++ qs)) ∧
        ∀ e, pairs b = .error e → pairs (a ++ b) = .error e) ∧
      (∀ a more b ps xs literal literal', pairs a = .ok ps → pairs more = .ok xs →
        (∀ x ∈ xs, x.key ≠ "enum" ∧ x.key ≠ "required" ∨ ∃ p ∈ ps, p.key = x.key) →
          Quotes literal (a ++ b) → Quotes literal' (a ++ (more ++ b)) →
            parse literal' = parse literal) ∧
      (∀ text e, pairs text = .error e ↔
        ∃ a ps bad, text = a ++ bad ∧ pairs a = .ok ps ∧ Malformed bad e) ∧
      ∀ a bad ps e literal, pairs a = .ok ps → Malformed bad e → Quotes literal (a ++ bad) →
        parse literal = .error e := by
  refine ⟨fun a b ps ha => ⟨fun qs hb => ?_, fun e hb => ?_⟩, ?_, fun text e => pairs_eq_error_iff,
    ?_⟩
  · rw [pairs_append ha, hb]
    rfl
  · rw [pairs_append ha, hb]
    rfl
  · intro a more b ps xs literal literal' ha hmore hkeys hliteral hliteral'
    rw [parse_of_quotes hliteral, parse_of_quotes hliteral', pairs_append ha, pairs_append ha,
      pairs_append hmore]
    cases pairs b with
    | error e => rfl
    | ok qs => exact ofPairs_insert hkeys qs
  · intro a bad ps e literal ha hbad hliteral
    have herror : pairs (a ++ bad) = .error e := pairs_eq_error_iff.mpr ⟨a, ps, bad, rfl, ha, hbad⟩
    rw [parse_of_quotes hliteral, herror]
    rfl

theorem malformed_colon : Malformed [':', '"', 'x', '"'] .keySyntax := by
  apply Malformed.noKey (by decide)
  rw [isKey_singleton_iff]
  decide

/-- A foreign pair and a second `enum` pair behind one with bad values, and a pair without a key in
    their place. -/
theorem pairs_compose_repeated :
    pairs "enum:\"a,a\" ".toList = .ok [⟨"enum", "a,a"⟩] ∧
      pairs "json:\"n\" enum:\"b\"".toList = .ok [⟨"json", "n"⟩, ⟨"enum", "b"⟩] ∧
      parse "\x60enum:\"a,a\" json:\"n\" enum:\"b\"\x60" = parse "\x60enum:\"a,a\" \x60" ∧
      parse "\x60enum:\"a,a\" :\"x\"\x60" = .error .keySyntax := by
  obtain ⟨-, hinsert, -, hmalformed⟩ := pairs_compose
  have hfirst : pairs "enum:\"a,a\" ".toList = .ok [⟨"enum", "a,a"⟩] := by decide +kernel
  have hmore : pairs "json:\"n\" enum:\"b\"".toList = .ok [⟨"json", "n"⟩, ⟨"enum", "b"⟩] := by
    decide +kernel
  have hkeys : ∀ x ∈ [(⟨"json", "n"⟩ : Pair), ⟨"enum", "b"⟩],
      x.key ≠ "enum" ∧ x.key ≠ "required" ∨ ∃ p ∈ [(⟨"enum", "a,a"⟩ : Pair)], p.key = x.key := by
    decide
  have hraw : ∀ (literal : String) (text : List Char),
      literal = String.ofList ('\x60' :: (text ++ ['\x60'])) → Quotes literal text := by
    rintro literal text rfl
    exact .raw text
  refine ⟨hfirst, hmore, ?_, ?_⟩
  · exact hinsert _ _ [] _ _ _ _ hfirst hmore hkeys (hraw _ _ (by decide +kernel))
      (hraw _ _ (by decide +kernel))
  · exact hmalformed _ _ _ _ _ hfirst malformed_colon (hraw _ _ (by decide +kernel))

end CallSchema.Tag
