import CallSchema.Tag.Pair
import CallSchema.Text.Pieces

/-!
Field tags: the allowed values of a field and whether it is required.

* `parse` reads a tag literal as it stands in source. All pairs are checked for syntax before any
  of them is interpreted, and of two pairs with one key the first counts (`valueOf?`).
* `enumValues` cuts an `enum` value at its commas and wants the pieces to be distinct and not
  empty (`enumValues_distinct`); on success the pieces are exactly those of the value
  (`enumValues_eq_ok`).
* A field is required unless its `required` value begins with a word for no (`isRequired`).
-/

namespace CallSchema

open Text

/-- What the tags of a field say about its schema. -/
structure FieldTags where
  /-- The allowed values in the order of the tag, if there is an `enum` tag. -/
  enumValues : Option (List String) := none
  required : Bool := true
deriving Repr, DecidableEq

namespace Tag

/-- The text that a tag literal stands for: a raw string between backquotes as it is, an
    interpreted one between double quotes with its escapes decoded. -/
def literalText (literal : String) : Except TagError (List Char) :=
  let s := literal.toList
  let inner := (s.drop 1).dropLast
  if s.length < 2 ∨ s.head? ≠ s.getLast? then .error (.literal literal)
  else if s.head? = some '\x60' then .ok inner
  else if s.head? = some '"' then
    match unescape inner with
    | some text => .ok text.toList
    | none => .error (.literal literal)
  else .error (.literal literal)

/-- The value of the first pair with the given key. -/
def valueOf? (key : String) (ps : List Pair) : Option String :=
  (ps.find? (·.key == key)).map (·.value)

/-- Checks the pieces in order against those before them. -/
def checkEnum (seen : List String) : List String → Except TagError Unit
  | [] => .ok ()
  | piece :: rest =>
    if piece.isEmpty then .error .emptyEnumValue
    else if seen.contains piece then .error (.duplicateEnumValue piece)
    else checkEnum (seen ++ [piece]) rest

/-- The pieces of a value between its commas. -/
def enumPieces (value : String) : List String := (cut ',' value.toList).map String.ofList

/-- The allowed values that an `enum` value lists. -/
def enumValues (value : String) : Except TagError (List String) :=
  (checkEnum [] (enumPieces value)).map fun _ => enumPieces value

/-- Whatever is accepted is the list of pieces. -/
theorem enumValues_eq_ok {value : String} {vs : List String} (h : enumValues value = .ok vs) :
    vs = enumPieces value := by
  simp only [enumValues] at h
  cases hc : checkEnum [] (enumPieces value) <;> simp_all [Except.map]

/-- The check passes exactly if the pieces are distinct, not empty, and none of those before. -/
theorem checkEnum_eq_ok_iff {seen pieces : List String} :
    checkEnum seen pieces = .ok () ↔
      pieces.Nodup ∧ ∀ piece ∈ pieces, piece ≠ "" ∧ piece ∉ seen := by
  induction pieces generalizing seen with
  | nil => simp [checkEnum]
  | cons piece rest ih =>
    rw [checkEnum]
    split
    · simp_all
    · split
      · simp_all
      · rename_i hempty hseen
        have hne : piece ≠ "" := by simpa using hempty
        have hnew : piece ∉ seen := by simpa using hseen
        rw [ih, List.nodup_cons]
        grind

/-- Accepted values are distinct and not empty. -/
theorem enumValues_distinct {value : String} {vs : List String} (h : enumValues value = .ok vs) :
    vs.Nodup ∧ ∀ v ∈ vs, v ≠ "" := by
  obtain rfl := enumValues_eq_ok h
  have hc : checkEnum [] (enumPieces value) = .ok () := by
    unfold enumValues at h
    cases hc : checkEnum [] (enumPieces value) with
    | error e => simp [hc, Except.map] at h
    | ok u => rfl
  obtain ⟨hn, he⟩ := checkEnum_eq_ok_iff.mp hc
  exact ⟨hn, fun v hv => (he v hv).1⟩

/-- The words that make a field optional, in lower case. -/
def negatives : List String := ["false", "no", "0"]

/-- A `required` value requires the field unless its first piece is a word for no, in any case. -/
def isRequired (value : String) : Bool :=
  !negatives.contains (String.ofList ((firstPiece ',' value.toList).map Char.toLower))

/-- Interprets the pairs of a tag. -/
def ofPairs (ps : List Pair) : Except TagError FieldTags := do
  let enumValues ← match valueOf? "enum" ps with
    | none => pure none
    | some value => some <$> enumValues value
  return { enumValues, required := ((valueOf? "required" ps).map isRequired).getD true }

/-- What a tag literal says. -/
def parse (literal : String) : Except TagError FieldTags := do
  let text ← literalText literal
  let ps ← pairs text
  ofPairs ps

/-- The three steps of reading a tag. -/
theorem parse_eq_ok {literal : String} {tags : FieldTags} (h : parse literal = .ok tags) :
    ∃ text ps, literalText literal = .ok text ∧ pairs text = .ok ps ∧ ofPairs ps = .ok tags := by
  unfold parse at h
  cases ht : literalText literal with
  | error e => simp [ht, bind, Except.bind] at h
  | ok text =>
    cases hp : pairs text with
    | error e => simp [ht, hp, bind, Except.bind] at h
    | ok ps => exact ⟨text, ps, rfl, hp, by simpa [ht, hp, bind, Except.bind] using h⟩

theorem ofPairs_of_none {ps : List Pair} (h : valueOf? "enum" ps = none) :
    ofPairs ps = .ok { required := ((valueOf? "required" ps).map isRequired).getD true } := by
  rw [ofPairs, h]
  rfl

theorem ofPairs_of_some {ps : List Pair} {value : String} (h : valueOf? "enum" ps = some value) :
    ofPairs ps = (enumValues value).map fun vs =>
      { enumValues := some vs
        required := ((valueOf? "required" ps).map isRequired).getD true } := by
  rw [ofPairs, h]
  dsimp only
  cases enumValues value <;> rfl

/-- Allowed values are those of the first `enum` pair. -/
theorem exists_enumValues_of_ofPairs {ps : List Pair} {tags : FieldTags} {vs : List String}
    (h : ofPairs ps = .ok tags) (hv : tags.enumValues = some vs) :
    ∃ value, valueOf? "enum" ps = some value ∧ enumValues value = .ok vs := by
  cases hval : valueOf? "enum" ps with
  | none =>
    obtain rfl := Except.ok.inj ((ofPairs_of_none hval).symm.trans h)
    simp at hv
  | some value =>
    refine ⟨value, rfl, ?_⟩
    rw [ofPairs_of_some hval] at h
    cases he : enumValues value with
    | error e => simp [he, Except.map] at h
    | ok values =>
      rw [he] at h
      obtain rfl := Except.ok.inj h
      exact congrArg Except.ok (Option.some.inj hv)

/-- The allowed values that a tag gives are distinct and not empty. -/
theorem parse_enumValues_distinct {literal : String} {tags : FieldTags} {vs : List String}
    (h : parse literal = .ok tags) (hv : tags.enumValues = some vs) :
    vs.Nodup ∧ ∀ v ∈ vs, v ≠ "" := by
  obtain ⟨text, ps, -, -, ho⟩ := parse_eq_ok h
  obtain ⟨value, -, he⟩ := exists_enumValues_of_ofPairs ho hv
  exact enumValues_distinct he

end Tag

end CallSchema
