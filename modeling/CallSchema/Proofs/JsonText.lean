import CallSchema.Json.Reader

/-!
The text of a JSON value, read again.

1. `units?_flatMap_escaped`, `unicode?_map_toNat`: the escapes of a string stand for its characters,
   and the characters of a Unicode text need no putting together.
2. `ReadsBack j`: in either layout and at every level, the text of `j` is read as `j`, whatever
   stands behind it. It holds of strings, and of arrays and objects of values of which it holds
   (`readsBack_string`, `readsBack_array`, `readsBack_object`).
3. `OneLine j`: the compact text of `j` has no control character. It holds of the same values.

The reader is given as many calls as the text has characters, so the lengths of the parts of a text
are what each call may still spend.
-/

namespace CallSchema.Json

open Text

/-! ## Strings -/

theorem digits?_hexChar :
    ∀ n < 0x20, digits? 16 4 ['0', '0', hexChar (n / 16), hexChar (n % 16)] = some (n, []) := by
  decide

/-- The escapes of one letter are read as what they were written for. -/
theorem letterUnits_of_letterEscapes :
    ∀ entry ∈ letterEscapes, letterUnits.lookup entry.2 = some entry.1.toNat := by
  decide

/-- A character that has no escape of one letter is neither the quote nor the backslash. -/
theorem ne_of_lookup_letterEscapes {c : Char} (h : letterEscapes.lookup c = none) :
    c ≠ '"' ∧ c ≠ '\\' := by
  constructor <;>
  · rintro rfl
    exact absurd h (by decide)

theorem units?_escaped (c : Char) (rest : List Char) :
    units? (escaped c ++ rest) =
      (units? rest).map fun (ns, after) => (c.toNat :: ns, after) := by
  unfold escaped
  cases hl : letterEscapes.lookup c with
  | some letter =>
    obtain ⟨before, behind, hsplit, -⟩ := List.lookup_eq_some_iff.mp hl
    have hunit : letterUnits.lookup letter = some c.toNat :=
      letterUnits_of_letterEscapes (c, letter) (hsplit ▸ by simp)
    simp only [List.cons_append, List.nil_append]
    rw [units?.eq_def]
    simp [hunit]
  | none =>
    obtain ⟨hquote, hbackslash⟩ := ne_of_lookup_letterEscapes hl
    by_cases hc : c.toNat < 0x20
    · have hu : letterUnits.lookup 'u' = none := by decide
      have hdigits := digits?_hexChar c.toNat hc
      simp only [if_pos hc, List.cons_append, List.nil_append]
      rw [units?, if_neg (by decide), if_pos rfl]
      simp only [hu, hdigits, Option.bind_eq_bind, Option.bind_some]
      cases units? rest <;> rfl
    · simp only [if_neg hc, List.cons_append, List.nil_append]
      rw [units?.eq_def]
      simp [hquote, hbackslash, hc]

theorem units?_flatMap_escaped (cs rest : List Char) :
    units? (cs.flatMap escaped ++ '"' :: rest) = some (cs.map Char.toNat, rest) := by
  induction cs with
  | nil =>
    show units? ('"' :: rest) = some ([], rest)
    rw [units?.eq_def]
    rfl
  | cons c cs ih =>
    rw [List.flatMap_cons, List.append_assoc, units?_escaped, ih]
    rfl

theorem unicode?_map_toNat (cs : List Char) : unicode? (cs.map Char.toNat) = some cs := by
  induction cs with
  | nil => rfl
  | cons c cs ih =>
    have hvalid : c.toNat.isValidChar := c.valid
    have hleading : isLeading c.toNat = false := by
      simp only [isLeading, Bool.and_eq_false_iff, decide_eq_false_iff_not]
      rcases hvalid with h | h <;> omega
    have hscalar : scalar? c.toNat = some c := by
      rw [scalar?, if_pos hvalid, Char.ofNat_toNat]
    rw [List.map_cons, unicode?.eq_def]
    simp only [hleading, hscalar, ih]
    rfl

/-! ## White space -/

theorem skipSpace_append {ws : List Char} (h : ∀ c ∈ ws, isSpace c = true) (s : List Char) :
    skipSpace (ws ++ s) = skipSpace s :=
  List.dropWhile_append_of_pos h

theorem skipSpace_cons {c : Char} (h : isSpace c = false) (s : List Char) :
    skipSpace (c :: s) = c :: s := by
  simp [skipSpace, h]

theorem isSpace_of_mem_lineBreak {layout : Layout} {level : Nat} {c : Char}
    (h : c ∈ layout.lineBreak level) : isSpace c = true := by
  cases layout with
  | compact => exact absurd h List.not_mem_nil
  | indented =>
    rcases List.mem_cons.mp h with rfl | h
    · rfl
    · rw [List.eq_of_mem_replicate h]
      rfl

theorem skipSpace_lineBreak (layout : Layout) (level : Nat) (s : List Char) :
    skipSpace (layout.lineBreak level ++ s) = skipSpace s :=
  skipSpace_append (fun _ => isSpace_of_mem_lineBreak) s

/-- After the colon there is nothing but white space. -/
theorem exists_colon (layout : Layout) :
    ∃ ws, layout.colon = ':' :: ws ∧ ∀ c ∈ ws, isSpace c = true := by
  cases layout with
  | compact => exact ⟨[], rfl, nofun⟩
  | indented => exact ⟨[' '], rfl, List.forall_mem_singleton.mpr rfl⟩

/-- Reading a value begins at the first character that is no white space. -/
theorem value?_congr {s s' : List Char} (h : skipSpace s = skipSpace s') (n : Nat) :
    value? n s = value? n s' := by
  cases n with
  | zero => rfl
  | succ n => rw [value?, value?, h]

/-! ## Values -/

/-- The text begins a value: with no white space, and with no bracket that ends an array. -/
def Opens (s : List Char) : Prop := ∃ c rest, s = c :: rest ∧ isSpace c = false ∧ c ≠ ']'

theorem Opens.ne_bracket {s : List Char} (h : Opens s) (rest after : List Char) :
    skipSpace (s ++ rest) ≠ ']' :: after := by
  obtain ⟨c, tail, rfl, hspace, hc⟩ := h
  rw [List.cons_append, skipSpace_cons hspace]
  intro heq
  exact hc (List.cons.inj heq).1

/-- The text of the value is read as the value, and what stands behind it is left. -/
def ReadsBack (j : Json) : Prop :=
  ∀ layout level, Opens (j.write layout level) ∧
    ∀ n rest, (j.write layout level).length ≤ n →
      value? n (j.write layout level ++ rest) = some (j, rest)

theorem readsBack_string (value : String) : ReadsBack (.string value) := by
  intro layout level
  rw [write, quoted]
  refine ⟨⟨'"', _, rfl, rfl, by decide⟩, fun n rest hn => ?_⟩
  obtain ⟨n, rfl⟩ : ∃ m, n = m + 1 := Nat.exists_eq_add_one.mpr (by simp at hn; omega)
  rw [value?]
  simp [skipSpace_cons, isSpace, units?_flatMap_escaped, unicode?_map_toNat]

/-! ### Arrays -/

/-- The text after a bracket that does not end the array at once is its items. -/
theorem value?_bracket {n : Nat} {s rest : List Char} {items : List Json}
    (hopen : ∀ after, skipSpace s ≠ ']' :: after) (h : items? n s = some (items, rest)) :
    value? (n + 1) ('[' :: s) = some (.array items, rest) := by
  rw [value?, skipSpace_cons rfl]
  simp only [h]
  rfl

section

variable {layout : Layout} {level : Nat}

theorem items?_write {item : Json} {items : List Json} (h : ∀ j ∈ item :: items, ReadsBack j)
    {n : Nat} (hn : (write layout level item).length + (writeItems layout level items).length < n)
    (outer : Nat) (rest : List Char) :
    items? n (layout.lineBreak level ++ (write layout level item ++
      (writeItems layout level items ++ (layout.lineBreak outer ++ ']' :: rest)))) =
      some (item :: items, rest) := by
  induction items generalizing item n with
  | nil =>
    obtain ⟨n, rfl⟩ : ∃ m, n = m + 1 := Nat.exists_eq_add_one.mpr (by omega)
    rw [items?, value?_congr (skipSpace_lineBreak layout level _),
      (h item List.mem_cons_self layout level).2 n _ (by omega)]
    simp only [writeItems, List.nil_append, Option.bind_eq_bind, Option.bind_some,
      skipSpace_lineBreak, skipSpace_cons (c := ']') rfl]
    rfl
  | cons next items ih =>
    obtain ⟨n, rfl⟩ : ∃ m, n = m + 1 := Nat.exists_eq_add_one.mpr (by omega)
    have hrest := ih (fun j hj => h j (List.mem_cons_of_mem item hj)) (n := n) (by
      simp only [writeItems, List.length_append, List.length_cons] at hn
      omega)
    rw [items?, value?_congr (skipSpace_lineBreak layout level _),
      (h item List.mem_cons_self layout level).2 n _ (by omega)]
    simp only [writeItems, List.cons_append, List.append_assoc, Option.bind_eq_bind,
      Option.bind_some, skipSpace_cons (c := ',') rfl, hrest]
    rfl

end

theorem readsBack_array {items : List Json} (h : ∀ j ∈ items, ReadsBack j) :
    ReadsBack (.array items) := by
  intro layout level
  cases items with
  | nil =>
    rw [write]
    refine ⟨⟨'[', _, rfl, rfl, by decide⟩, fun n rest hn => ?_⟩
    obtain ⟨n, rfl⟩ : ∃ m, n = m + 1 := Nat.exists_eq_add_one.mpr (by simp at hn; omega)
    rfl
  | cons item items =>
    rw [write]
    refine ⟨⟨'[', _, rfl, rfl, by decide⟩, fun n rest hn => ?_⟩
    obtain ⟨n, rfl⟩ : ∃ m, n = m + 1 := Nat.exists_eq_add_one.mpr (by simp at hn; omega)
    have hopens := (h item List.mem_cons_self layout (level + 1)).1
    simp only [List.cons_append, List.append_assoc, List.length_cons, List.length_append,
      List.nil_append] at hn ⊢
    refine value?_bracket (fun after => ?_) (items?_write h (by omega) level rest)
    rw [skipSpace_lineBreak]
    exact hopens.ne_bracket _ after

/-! ### Objects -/

theorem mapM_texts (members : List (String × Json)) :
    ((members.map (Prod.map some id)).mapM fun (key, value) => key.map (·, value)) =
      some members := by
  induction members with
  | nil => rfl
  | cons member members ih =>
    rw [List.map_cons, List.mapM_cons, ih]
    rfl

/-- The text after a brace that does not end the object at once is its members. -/
theorem value?_brace {n : Nat} {s : List Char} {members : List (String × Json)} {rest : List Char}
    (hopen : ∀ after, skipSpace s ≠ '\x7d' :: after)
    (h : members? n s = some (members.map (Prod.map some id), rest)) :
    value? (n + 1) ('\x7b' :: s) = some (.object members, rest) := by
  rw [value?, skipSpace_cons rfl]
  simp only [h, Option.bind_eq_bind, Option.bind_some]
  rw [mapM_texts]
  rfl

section

variable {layout : Layout} {level : Nat}

theorem value?_colon {value : Json} (h : ReadsBack value) {n : Nat}
    (hn : (write layout level value).length ≤ n) (tail : List Char) :
    ∃ ws, layout.colon = ':' :: ws ∧
      value? n (ws ++ (write layout level value ++ tail)) = some (value, tail) := by
  obtain ⟨ws, hcolon, hws⟩ := exists_colon layout
  refine ⟨ws, hcolon, ?_⟩
  rw [value?_congr (skipSpace_append hws _), (h layout level).2 n tail hn]

/-- A member before the brace that ends the object is the last one. -/
theorem members?_last {value : Json} (h : ReadsBack value) {n : Nat}
    (hn : (write layout level value).length ≤ n) (key : String) {tail after : List Char}
    (hend : skipSpace tail = '\x7d' :: after) :
    members? (n + 1) (layout.lineBreak level ++ (writeMember layout level (key, value) ++ tail)) =
      some ([(some key, value)], after) := by
  obtain ⟨ws, hcolon, hvalue⟩ := value?_colon h hn tail
  rw [members?, skipSpace_lineBreak, writeMember, quoted, hcolon]
  simp [skipSpace_cons, isSpace, units?_flatMap_escaped, unicode?_map_toNat, hvalue, hend]

/-- After a member and a comma come the other members. -/
theorem members?_comma {value : Json} (h : ReadsBack value) {n : Nat}
    (hn : (write layout level value).length ≤ n) (key : String) {rest after : List Char}
    {members : List (Option String × Json)} (hrest : members? n rest = some (members, after)) :
    members? (n + 1) (layout.lineBreak level ++
      (writeMember layout level (key, value) ++ ',' :: rest)) =
      some ((some key, value) :: members, after) := by
  obtain ⟨ws, hcolon, hvalue⟩ := value?_colon h hn (',' :: rest)
  rw [members?, skipSpace_lineBreak, writeMember, quoted, hcolon]
  simp [skipSpace_cons, isSpace, units?_flatMap_escaped, unicode?_map_toNat, hvalue, hrest]

theorem length_write_lt (layout : Layout) (level : Nat) (member : String × Json) :
    (write layout level member.2).length < (writeMember layout level member).length := by
  obtain ⟨key, value⟩ := member
  simp only [writeMember, quoted, List.length_append, List.length_cons]
  omega

theorem members?_write {member : String × Json} {members : List (String × Json)}
    (h : ∀ m ∈ member :: members, ReadsBack m.2) {n : Nat}
    (hn : (writeMember layout level member).length + (writeMembers layout level members).length < n)
    (outer : Nat) (rest : List Char) :
    members? n (layout.lineBreak level ++ (writeMember layout level member ++
      (writeMembers layout level members ++ (layout.lineBreak outer ++ '\x7d' :: rest)))) =
      some ((member :: members).map (Prod.map some id), rest) := by
  have hmember := length_write_lt layout level member
  obtain ⟨n, rfl⟩ : ∃ m, n = m + 1 := Nat.exists_eq_add_one.mpr (by omega)
  induction members generalizing member n with
  | nil =>
    apply members?_last (h member List.mem_cons_self) (by omega)
    rw [writeMembers, List.nil_append, skipSpace_lineBreak, skipSpace_cons rfl]
  | cons next members ih =>
    simp only [writeMembers, List.length_append, List.length_cons] at hn
    have hnext := length_write_lt layout level next
    obtain ⟨n, rfl⟩ : ∃ m, n = m + 1 := Nat.exists_eq_add_one.mpr (by omega)
    have hrest := ih (fun m hm => h m (List.mem_cons_of_mem member hm)) hnext n (by omega)
    simp only [writeMembers, List.cons_append, List.append_assoc]
    exact members?_comma (h member List.mem_cons_self) (by omega) member.1 hrest

end

theorem readsBack_object {members : List (String × Json)} (h : ∀ m ∈ members, ReadsBack m.2) :
    ReadsBack (.object members) := by
  intro layout level
  cases members with
  | nil =>
    rw [write]
    refine ⟨⟨'\x7b', _, rfl, rfl, by decide⟩, fun n rest hn => ?_⟩
    obtain ⟨n, rfl⟩ : ∃ m, n = m + 1 := Nat.exists_eq_add_one.mpr (by simp at hn; omega)
    rfl
  | cons member members =>
    rw [write]
    refine ⟨⟨'\x7b', _, rfl, rfl, by decide⟩, fun n rest hn => ?_⟩
    obtain ⟨n, rfl⟩ : ∃ m, n = m + 1 := Nat.exists_eq_add_one.mpr (by simp at hn; omega)
    simp only [List.cons_append, List.append_assoc, List.length_cons, List.length_append,
      List.nil_append] at hn ⊢
    refine value?_brace (fun after => ?_) (members?_write h (by omega) level rest)
    rw [skipSpace_lineBreak, writeMember, quoted]
    simp only [List.cons_append, skipSpace_cons (c := '"') rfl]
    intro heq
    exact absurd (List.cons.inj heq).1 (by decide)

/-! ## Whole texts -/

/-- The text of the value is read as the value, also with white space behind it. -/
theorem ReadsBack.read?_text {j : Json} (h : ReadsBack j) (layout : Layout) {ws : String}
    (hws : ∀ c ∈ ws.toList, isSpace c = true) : read? (j.text layout ++ ws) = some j := by
  have htext : (j.text layout ++ ws).toList = j.write layout 0 ++ ws.toList := by
    rw [text, String.toList_append, String.toList_ofList]
  have hread := (h layout 0).2 ((j.text layout ++ ws).toList.length + 1) ws.toList (by
    rw [htext, List.length_append]
    omega)
  have hspace : skipSpace ws.toList = [] := by
    rw [← List.append_nil ws.toList, skipSpace_append hws]
    rfl
  rw [htext] at hread
  rw [read?, htext, hread]
  simp [hspace]

/-! ## Lines -/

/-- No character of the text is a control character. -/
def Printable (s : List Char) : Prop := ∀ c ∈ s, 0x20 ≤ c.toNat

theorem Printable.append {s t : List Char} (hs : Printable s) (ht : Printable t) :
    Printable (s ++ t) :=
  fun c hc => (List.mem_append.mp hc).elim (hs c) (ht c)

theorem Printable.cons {c : Char} {s : List Char} (hc : 0x20 ≤ c.toNat) (hs : Printable s) :
    Printable (c :: s) :=
  List.forall_mem_cons.mpr ⟨hc, hs⟩

theorem printable_nil : Printable [] := nofun

theorem printable_hexChar : ∀ n < 16, 0x20 ≤ (hexChar n).toNat := by
  decide

theorem printable_letterEscapes : ∀ entry ∈ letterEscapes, 0x20 ≤ entry.2.toNat := by
  decide

theorem printable_escaped (c : Char) : Printable (escaped c) := by
  unfold escaped
  cases hl : letterEscapes.lookup c with
  | some letter =>
    obtain ⟨before, behind, hsplit, -⟩ := List.lookup_eq_some_iff.mp hl
    have hletter := printable_letterEscapes (c, letter) (hsplit ▸ by simp)
    exact .cons (by decide) (.cons hletter printable_nil)
  | none =>
    by_cases hc : c.toNat < 0x20
    · have hhigh := printable_hexChar (c.toNat / 16) (by omega)
      have hlow := printable_hexChar (c.toNat % 16) (by omega)
      simp only [if_pos hc]
      exact .cons (by decide) (.cons (by decide) (.cons (by decide) (.cons (by decide)
        (.cons hhigh (.cons hlow printable_nil)))))
    · simp only [if_neg hc]
      exact .cons (by omega) printable_nil

theorem printable_quoted (s : String) : Printable (quoted s) := by
  have hbody : Printable (s.toList.flatMap escaped) := by
    intro c hc
    obtain ⟨e, -, hc⟩ := List.mem_flatMap.mp hc
    exact printable_escaped e c hc
  exact .append (.cons (by decide) hbody) (.cons (by decide) printable_nil)

/-- The compact text of the value stands on one line. -/
def OneLine (j : Json) : Prop := ∀ level, Printable (j.write .compact level)

theorem oneLine_string (value : String) : OneLine (.string value) := by
  intro level
  rw [write]
  exact printable_quoted value

theorem oneLine_array {items : List Json} (h : ∀ j ∈ items, OneLine j) :
    OneLine (.array items) := by
  have hitems : ∀ items, (∀ j ∈ items, OneLine j) →
      ∀ level, Printable (writeItems .compact level items) := by
    intro items h level
    induction items with
    | nil => exact printable_nil
    | cons item items ih =>
      obtain ⟨hitem, hrest⟩ := List.forall_mem_cons.mp h
      exact .append (.append (.cons (by decide) printable_nil) (hitem level)) (ih hrest)
  intro level
  cases items with
  | nil => exact .cons (by decide) (.cons (by decide) printable_nil)
  | cons item items =>
    obtain ⟨hitem, hrest⟩ := List.forall_mem_cons.mp h
    rw [write]
    exact .append (.append (.append (.append (.cons (by decide) printable_nil) (hitem _))
      (hitems items hrest _)) printable_nil) (.cons (by decide) printable_nil)

theorem oneLine_object {members : List (String × Json)} (h : ∀ m ∈ members, OneLine m.2) :
    OneLine (.object members) := by
  have hmember : ∀ member : String × Json, OneLine member.2 →
      ∀ level, Printable (writeMember .compact level member) :=
    fun (key, _) h level =>
      .append (.append (printable_quoted key) (.cons (by decide) printable_nil)) (h level)
  have hmembers : ∀ members : List (String × Json), (∀ m ∈ members, OneLine m.2) →
      ∀ level, Printable (writeMembers .compact level members) := by
    intro members h level
    induction members with
    | nil => exact printable_nil
    | cons member members ih =>
      obtain ⟨hfirst, hrest⟩ := List.forall_mem_cons.mp h
      exact .append (.append (.cons (by decide) printable_nil) (hmember member hfirst level))
        (ih hrest)
  intro level
  cases members with
  | nil => exact .cons (by decide) (.cons (by decide) printable_nil)
  | cons member members =>
    obtain ⟨hfirst, hrest⟩ := List.forall_mem_cons.mp h
    rw [write]
    exact .append (.append (.append (.append (.cons (by decide) printable_nil)
      (hmember member hfirst _)) (hmembers members hrest _)) printable_nil)
      (.cons (by decide) printable_nil)

end CallSchema.Json
