import CallSchema.Proofs.Pieces
import CallSchema.Proofs.TagParts

/-!
What the first `enum` pair of a tag allows, and which of its pieces is at fault.

1. `pieces_iff`: the pieces of a value hold no comma, and commas between them give the value back.
   These are what cutting at the commas gives, so no value has pieces in two ways.
2. `checkEnum_eq_error_iff`, `firstFault_iff`: the check fails at the first piece that is empty or
   stands among those before it, and its error is that of this piece.
3. `ofPairs_of_noFault`, `ofPairs_of_firstFault`: no other pair has a say, `required` among them.
-/

namespace CallSchema.Tag

open Text

/-! ## Pieces -/

/-- The pieces of the value between its commas, in order. -/
structure Pieces (value : String) (pieces : List String) : Prop where
  ne_nil : pieces ≠ []
  no_comma : ∀ piece ∈ pieces, ',' ∉ piece.toList
  joined : ",".intercalate pieces = value

theorem pieces_iff {value : String} {pieces : List String} :
    Pieces value pieces ↔ pieces = enumPieces value := by
  constructor
  · intro h
    have hvalue : value.toList = [','].intercalate (pieces.map String.toList) := by
      rw [← h.joined, String.toList_intercalate]
      rfl
    have hcut : cut ',' value.toList = pieces.map String.toList := by
      rw [cut_eq_splitOn, hvalue]
      apply List.splitOn_intercalate
      · simpa using h.no_comma
      · simpa using h.ne_nil
    simp [enumPieces, hcut]
  · rintro rfl
    refine ⟨?_, ?_, ?_⟩
    · simpa [enumPieces] using cut_ne_nil ',' value.toList
    · intro piece hpiece
      obtain ⟨p, hp, rfl⟩ := List.mem_map.mp hpiece
      rw [String.toList_ofList]
      exact not_mem_of_mem_cut hp
    · have hjoined := joined_cut ',' value.toList
      rw [joined_eq_intercalate] at hjoined
      rw [← String.toList_inj, String.toList_intercalate, ← hjoined]
      simp [enumPieces]

/-! ## Faults -/

/-- What is wrong with a piece behind the earlier ones. -/
inductive PieceFault (earlier : List String) : String → TagError → Prop
  | empty : PieceFault earlier "" .emptyEnumValue
  | repeated {piece : String} (hne : piece ≠ "") (h : piece ∈ earlier) :
      PieceFault earlier piece (.duplicateEnumValue piece)

/-- The first piece that is empty or stands among the earlier ones, and what is wrong with it. -/
def FirstFault (pieces : List String) (e : TagError) : Prop :=
  ∃ before piece after, pieces = before ++ piece :: after ∧ ("" ∉ before ∧ before.Nodup) ∧
    PieceFault before piece e

theorem checkEnum_of_fault {seen : List String} {piece : String} {e : TagError}
    (h : PieceFault seen piece e) (rest : List String) :
    checkEnum seen (piece :: rest) = .error e := by
  cases h with
  | empty => rfl
  | repeated hne hmem => simp [checkEnum, hne, hmem]

theorem checkEnum_cons {seen : List String} {piece : String} (hne : piece ≠ "")
    (hnot : piece ∉ seen) (rest : List String) :
    checkEnum seen (piece :: rest) = checkEnum (seen ++ [piece]) rest := by
  simp [checkEnum, hne, hnot]

/-- A piece lets the check go on, or something is wrong with it. -/
theorem passed_or_pieceFault (seen : List String) (piece : String) :
    (piece ≠ "" ∧ piece ∉ seen) ∨ ∃ e, PieceFault seen piece e := by
  by_cases hempty : piece = ""
  · subst hempty
    exact .inr ⟨_, .empty⟩
  · by_cases hmem : piece ∈ seen
    · exact .inr ⟨_, .repeated hempty hmem⟩
    · exact .inl ⟨hempty, hmem⟩

theorem checkEnum_append (seen before rest : List String) :
    checkEnum seen (before ++ rest) =
      checkEnum seen before >>= fun _ => checkEnum (seen ++ before) rest := by
  induction before generalizing seen with
  | nil => simp [checkEnum, bind, Except.bind]
  | cons piece before ih =>
    rcases passed_or_pieceFault seen piece with ⟨hne, hnot⟩ | ⟨e, he⟩
    · rw [List.cons_append, checkEnum_cons hne hnot, checkEnum_cons hne hnot, ih,
        List.append_assoc, List.singleton_append]
    · rw [List.cons_append, checkEnum_of_fault he, checkEnum_of_fault he]
      rfl

/-- The check fails at the first piece at fault. -/
theorem checkEnum_eq_error_iff {seen pieces : List String} {e : TagError} :
    checkEnum seen pieces = .error e ↔ ∃ before piece after, pieces = before ++ piece :: after ∧
      checkEnum seen before = .ok () ∧ PieceFault (seen ++ before) piece e := by
  constructor
  · intro h
    induction pieces generalizing seen with
    | nil => simp [checkEnum] at h
    | cons piece rest ih =>
      rcases passed_or_pieceFault seen piece with ⟨hne, hnot⟩ | ⟨e', he'⟩
      · rw [checkEnum_cons hne hnot] at h
        obtain ⟨before, bad, after, rfl, hbefore, hbad⟩ := ih h
        refine ⟨piece :: before, bad, after, rfl, ?_, ?_⟩
        · rw [checkEnum_cons hne hnot, hbefore]
        · rwa [List.append_assoc, List.singleton_append] at hbad
      · obtain rfl := Except.error.inj ((checkEnum_of_fault he' rest).symm.trans h)
        exact ⟨[], piece, rest, rfl, rfl, by simpa using he'⟩
  · intro h
    obtain ⟨before, piece, after, rfl, hbefore, hfault⟩ := h
    rw [checkEnum_append, hbefore]
    exact checkEnum_of_fault hfault after

theorem checkEnum_nil_eq_ok_iff {pieces : List String} :
    checkEnum [] pieces = .ok () ↔ "" ∉ pieces ∧ pieces.Nodup := by
  rw [checkEnum_eq_ok_iff, and_comm]
  apply and_congr_left
  intro _
  constructor
  · intro h hempty
    exact (h "" hempty).1 rfl
  · intro h piece hpiece
    exact ⟨fun he => h (he ▸ hpiece), List.not_mem_nil⟩

theorem firstFault_iff {pieces : List String} {e : TagError} :
    FirstFault pieces e ↔ checkEnum [] pieces = .error e := by
  simp only [FirstFault, checkEnum_eq_error_iff, checkEnum_nil_eq_ok_iff, List.nil_append]

/-- Nothing is at fault, or there is a first piece that is. -/
theorem noFault_or_firstFault (pieces : List String) :
    ("" ∉ pieces ∧ pieces.Nodup) ∨ ∃ e, FirstFault pieces e := by
  simp only [firstFault_iff, ← checkEnum_nil_eq_ok_iff]
  cases checkEnum [] pieces with
  | ok _ => exact .inl rfl
  | error e => exact .inr ⟨e, rfl⟩

/-! ## Literals -/

/-- The value of the first pair with the key. -/
def FirstValue (key : String) (ps : List Pair) (value : String) : Prop :=
  ∃ before after, ps = before ++ ⟨key, value⟩ :: after ∧ ∀ p ∈ before, p.key ≠ key

theorem valueOf?_eq_some_iff {key value : String} {ps : List Pair} :
    valueOf? key ps = some value ↔ FirstValue key ps value := by
  simp only [valueOf?, Option.map_eq_some_iff, List.find?_eq_some_iff_append, FirstValue]
  constructor
  · rintro ⟨⟨own, value⟩, ⟨hkey, before, after, rfl, hbefore⟩, rfl⟩
    obtain rfl : own = key := by simpa using hkey
    exact ⟨before, after, rfl, by simpa using hbefore⟩
  · rintro ⟨before, after, rfl, hbefore⟩
    exact ⟨⟨key, value⟩, ⟨by simp, before, after, rfl, by simpa using hbefore⟩, rfl⟩

theorem ofPairs_of_noFault {ps : List Pair} {value : String} (h : FirstValue "enum" ps value)
    (hfree : "" ∉ enumPieces value ∧ (enumPieces value).Nodup) :
    ∃ tags, ofPairs ps = .ok tags ∧ tags.enumValues = some (enumPieces value) := by
  rw [ofPairs_of_some (valueOf?_eq_some_iff.mpr h), enumValues, checkEnum_nil_eq_ok_iff.mpr hfree]
  exact ⟨_, rfl, rfl⟩

theorem ofPairs_of_firstFault {ps : List Pair} {value : String} {e : TagError}
    (h : FirstValue "enum" ps value) (hfault : FirstFault (enumPieces value) e) :
    ofPairs ps = .error e := by
  rw [ofPairs_of_some (valueOf?_eq_some_iff.mpr h), enumValues, firstFault_iff.mp hfault]
  rfl

/-- The allowed values of a tag are what its first `enum` pair says, or the tag is refused.

    Of a literal whose pairs are well formed, nothing but the value of the first `enum` pair counts.
    Without one, there are no allowed values. Otherwise the literal is read exactly if no piece of
    the value is empty or repeated, and the allowed values are then its pieces. If it is not, the
    error is that of the first piece that is empty or stands among those before it. -/
theorem parse_enum_iff {literal : String} {tag : Written} (h : Quotes literal tag.text) :
    ((∀ p ∈ tag.pairs, p.key ≠ "enum") →
        ∃ tags, parse literal = .ok tags ∧ tags.enumValues = none) ∧
      ∀ value, FirstValue "enum" tag.pairs value →
        ∃ pieces, Pieces value pieces ∧ (∀ others, Pieces value others → others = pieces) ∧
          ((∃ tags, parse literal = .ok tags) ↔ "" ∉ pieces ∧ pieces.Nodup) ∧
          (∀ tags, parse literal = .ok tags → tags.enumValues = some pieces) ∧
          ∀ e, parse literal = .error e ↔ FirstFault pieces e := by
  have hparse : parse literal = ofPairs tag.pairs := by
    rw [parse_of_quotes h, pairs_text]
    rfl
  rw [hparse]
  constructor
  · intro hnone
    exact ⟨_, ofPairs_of_none (valueOf?_eq_none_iff.mpr hnone), rfl⟩
  · intro value hvalue
    refine ⟨enumPieces value, pieces_iff.mpr rfl, fun others => pieces_iff.mp, ?_⟩
    rcases noFault_or_firstFault (enumPieces value) with hfree | ⟨e, hfault⟩
    · obtain ⟨tags, htags, hvalues⟩ := ofPairs_of_noFault hvalue hfree
      rw [htags]
      refine ⟨iff_of_true ⟨tags, rfl⟩ hfree, fun tags' htags' => ?_, fun e => ?_⟩
      · rw [← Except.ok.inj htags', hvalues]
      · have hnot : ¬FirstFault (enumPieces value) e := fun hfault => by
          simp [ofPairs_of_firstFault hvalue hfault] at htags
        simpa using hnot
    · have herror := ofPairs_of_firstFault hvalue hfault
      rw [herror]
      refine ⟨iff_of_false (by simp) fun hfree => ?_, by simp, fun e' => ?_⟩
      · obtain ⟨tags, htags, -⟩ := ofPairs_of_noFault hvalue hfree
        simp [herror] at htags
      · constructor
        · intro he
          rwa [← Except.error.inj he]
        · intro hfault'
          rw [← herror, ofPairs_of_firstFault hvalue hfault']

/-- An escaped comma cuts like a comma, and makes the last piece one that is repeated. -/
theorem parse_enum_iff_escaped :
    parse "\x60json:\"a\" enum:\"a,b\\x2ca\" required:\"no\"\x60" =
        .error (.duplicateEnumValue "a") ∧
      FirstFault ["a", "b", "a"] (.duplicateEnumValue "a") := by
  have hpairs : pairs "json:\"a\" enum:\"a,b\\x2ca\" required:\"no\"".toList =
      .ok [⟨"json", "a"⟩, ⟨"enum", "a,b,a"⟩, ⟨"required", "no"⟩] := by decide +kernel
  obtain ⟨tag, htext, htag⟩ := exists_written hpairs
  have hquotes : Quotes "\x60json:\"a\" enum:\"a,b\\x2ca\" required:\"no\"\x60" tag.text := by
    have hraw := Quotes.raw tag.text
    rw [htext] at hraw ⊢
    convert hraw using 1
    decide +kernel
  have hvalue : FirstValue "enum" tag.pairs "a,b,a" := by
    rw [htag]
    exact ⟨[⟨"json", "a"⟩], _, rfl, by decide⟩
  have hpieces : Pieces "a,b,a" ["a", "b", "a"] := ⟨by decide, by decide, by decide +kernel⟩
  have hfault : FirstFault ["a", "b", "a"] (.duplicateEnumValue "a") :=
    ⟨["a", "b"], "a", [], rfl, by decide, .repeated (by decide) (by decide)⟩
  obtain ⟨pieces, -, hunique, -, -, herror⟩ := (parse_enum_iff hquotes).2 _ hvalue
  obtain rfl := hunique _ hpieces
  exact ⟨(herror _).mpr hfault, hfault⟩

end CallSchema.Tag
