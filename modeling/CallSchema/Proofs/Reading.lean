import CallSchema.Proofs.Subterms

/-!
How much of a type expression its text tells.

The text of a type leaves out the insides of structs, and shows an opaque name as it shows a type.
`outline` leaves out the same. Where names are words, such as Go's identifiers, that is all that a
text leaves out:

1. `readable`: `read` reads the outline of an expression off its text, up to the `]` or `,` that
   comes after it.
2. `display_eq_iff`: so two expressions have one text exactly if they have one outline.
-/

namespace CallSchema.TypeExpr

/-! ## Outlines -/

mutual

/-- The expression without the insides of structs, with opaque names made types. -/
def outline : TypeExpr → TypeExpr
  | .named name args => .named name (outlineList args)
  | .qualified package name => .qualified package name
  | .pointer pointee => .pointer (outline pointee)
  | .slice element => .slice (outline element)
  | .array element => .array (outline element)
  | .struct _ => .struct []
  | .map key value => .map (outline key) (outline value)
  | .chan element => .chan (outline element)
  | .interface => .interface
  | .func => .func
  | .other text => .named text []
termination_by structural e => e

/-- The outlines of type arguments. -/
def outlineList : List TypeExpr → List TypeExpr
  | [] => []
  | e :: es => outline e :: outlineList es
termination_by structural es => es

end

theorem outlineList_eq_map (es : List TypeExpr) : outlineList es = es.map outline := by
  induction es with
  | nil => rfl
  | cons e es ih => simp [outlineList, ih]

theorem displayList_outlineList {es : List TypeExpr}
    (h : ∀ e ∈ es, e.outline.display = e.display) :
    displayList (outlineList es) = displayList es := by
  match es with
  | [] => rfl
  | [e] => simpa [outlineList, displayList] using h
  | e :: next :: es =>
    have ih := displayList_outlineList fun a ha => h a (List.mem_cons_of_mem e ha)
    rw [outlineList] at ih ⊢
    rw [outlineList, displayList, displayList, h e List.mem_cons_self, ih]

/-- An outline has the text of the whole. -/
theorem display_outline (e : TypeExpr) : e.outline.display = e.display := by
  induction e using induct with
  | h e ih =>
    cases e with
    | named name args =>
      have hargs : displayList (outlineList args) = displayList args := displayList_outlineList ih
      rw [outline, display, display, hargs]
      cases args <;> rfl
    | pointer e | slice e | array e | chan e => simp [outline, display, ih e (by simp [children])]
    | map key value =>
      simp [outline, display, ih key (by simp [children]), ih value (by simp [children])]
    | qualified _ _ | struct _ | interface | func | other _ => rfl

/-- Making type parameters opaque does not show in an outline. -/
theorem outline_substitute_opaque (params : List String) (e : TypeExpr) :
    (e.substitute params []).outline = e.outline := by
  induction e using induct with
  | h e ih =>
    cases e with
    | named name args =>
      cases args with
      | nil =>
        rw [substitute_bare, substituteName]
        split <;> rfl
      | cons a args =>
        have hargs : ∀ a' ∈ a :: args, (a'.substitute params []).outline = a'.outline := ih
        simpa [substitute, outline, outlineList_eq_map, substituteList_eq_map] using hargs
    | pointer e | slice e | array e | chan e =>
      simp [substitute, outline, ih e (by simp [children])]
    | map key value =>
      simp [substitute, outline, ih key (by simp [children]), ih value (by simp [children])]
    | qualified _ _ | struct _ | interface | func | other _ => rfl

/-! ## Names -/

/-- The characters that stand between the names in the text of a type. -/
def delimiters : List Char := ['[', ']', ',', '.', '*', '{', '(', ' ']

/-- Whether the character can stand in a name. -/
def isWordChar (c : Char) : Bool := !delimiters.contains c

/-- A word that can be told from what stands around it, and from the beginning of a map type. -/
structure IsName (s : String) : Prop where
  ne_empty : s ≠ ""
  all_isWordChar : s.toList.all isWordChar = true
  ne_map : s ≠ "map"

instance (s : String) : Decidable (IsName s) :=
  decidable_of_iff (s ≠ "" ∧ s.toList.all isWordChar = true ∧ s ≠ "map")
    ⟨fun h => ⟨h.1, h.2.1, h.2.2⟩, fun h => ⟨h.1, h.2, h.3⟩⟩

/-- The names at the head of an expression. -/
def headNames : TypeExpr → List String
  | .named name _ => [name]
  | .qualified package name => [package, name]
  | .other text => [text]
  | _ => []

/-- All names in the expression are words. -/
def WellNamed (e : TypeExpr) : Prop := e.All fun e => ∀ name ∈ e.headNames, IsName name

instance (e : TypeExpr) : Decidable e.WellNamed :=
  inferInstanceAs (Decidable (e.All fun e => ∀ name ∈ e.headNames, IsName name))

theorem stable_wellNamed : Stable fun e => ∀ name ∈ e.headNames, IsName name where
  other_of_named h := h
  substitute := by
    intro params args e hne h
    cases e with
    | named name own =>
      have hown : own.isEmpty = false := by
        cases own with
        | nil => exact absurd rfl (hne name)
        | cons a own => rfl
      rwa [TypeExpr.substitute, hown]
    | _ => exact h

/-! ## Reading -/

/-- The text ends here, or what comes next stands behind a type. -/
def Stops : List Char → Prop
  | [] => True
  | c :: _ => c = ']' ∨ c = ','

/-- Goes on after the name at the beginning of a type. -/
def readAfter (read : List Char → Option (TypeExpr × List Char))
    (readList : List Char → Option (List TypeExpr × List Char)) (name : String) :
    List Char → Option (TypeExpr × List Char)
  | '.' :: s => some (.qualified name (String.ofList (s.takeWhile isWordChar)),
      s.dropWhile isWordChar)
  | '{' :: s => some (if name = "struct" then .struct [] else .interface, s.drop 4)
  | '(' :: s => some (.func, s.drop 4)
  | ' ' :: s => (read s).map fun (element, s) => (.chan element, s)
  | '[' :: s =>
    if name = "map" then do
      let (key, s) ← read s
      let (value, s) ← read (s.drop 1)
      return (.map key value, s)
    else do
      let (args, s) ← readList s
      return (.named name args, s)
  | s => some (.named name [], s)

mutual

/-- Reads the outline of a type from the beginning of a text. The number bounds the steps. -/
def read : Nat → List Char → Option (TypeExpr × List Char)
  | 0, _ => none
  | n + 1, s =>
    match s with
    | '*' :: s => (read n s).map fun (pointee, s) => (.pointer pointee, s)
    | '[' :: ']' :: s => (read n s).map fun (element, s) => (.slice element, s)
    | '[' :: 'N' :: ']' :: s => (read n s).map fun (element, s) => (.array element, s)
    | s => readAfter (read n) (readList n) (String.ofList (s.takeWhile isWordChar))
        (s.dropWhile isWordChar)
termination_by structural n => n

/-- Reads the outlines of type arguments up to the bracket that closes them. -/
def readList : Nat → List Char → Option (List TypeExpr × List Char)
  | 0, _ => none
  | n + 1, s => do
    let (arg, s) ← read n s
    match s with
    | ',' :: ' ' :: s =>
      let (args, s) ← readList n s
      return (arg :: args, s)
    | _ => return ([arg], s.drop 1)
termination_by structural n => n

end

theorem takeWhile_word {name : String} (h : name.toList.all isWordChar = true) {s : List Char}
    (hs : ∀ c ∈ s.head?, isWordChar c = false) :
    (name.toList ++ s).takeWhile isWordChar = name.toList ∧
      (name.toList ++ s).dropWhile isWordChar = s := by
  have hw : ∀ c ∈ name.toList, isWordChar c = true := List.all_eq_true.mp h
  rw [List.takeWhile_append_of_pos hw, List.dropWhile_append_of_pos hw]
  cases s with
  | nil => simp
  | cons c s => simp [hs c rfl]

/-- A type that begins with a word is read on behind the word. -/
theorem read_word {name : String} (hne : name ≠ "") (h : name.toList.all isWordChar = true)
    {s : List Char} (hs : ∀ c ∈ s.head?, isWordChar c = false) (n : Nat) :
    read (n + 1) (name.toList ++ s) = readAfter (read n) (readList n) name s := by
  obtain ⟨htake, hdrop⟩ := takeWhile_word h hs
  have hlist : name.toList ≠ [] := by simpa using hne
  obtain ⟨c, cs, hc⟩ := List.exists_cons_of_ne_nil hlist
  have hword : isWordChar c = true := List.all_eq_true.mp h c (by simp [hc])
  have hstar : c ≠ '*' := by rintro rfl; exact absurd hword (by decide)
  have hbracket : c ≠ '[' := by rintro rfl; exact absurd hword (by decide)
  -- The other cases of `read` begin with a delimiter.
  rw [read, htake, hdrop, String.ofList_toList]
  all_goals
    intro rest he
    rw [hc, List.cons_append, List.cons.injEq] at he
    first | exact hstar he.1 | exact hbracket he.1

theorem Stops.head_not_word {s : List Char} (h : Stops s) :
    ∀ c ∈ s.head?, isWordChar c = false := by
  match s with
  | [] => exact nofun
  | c :: s =>
    intro c' hc'
    obtain rfl := Option.some.inj hc'
    rcases h with rfl | rfl <;> decide

/-- A word that ends a type is a name without arguments. -/
theorem readAfter_stops {read : List Char → Option (TypeExpr × List Char)}
    {readList : List Char → Option (List TypeExpr × List Char)} {name : String} {s : List Char}
    (h : Stops s) : readAfter read readList name s = some (.named name [], s) := by
  match s with
  | [] => rfl
  | c :: s => rcases h with rfl | rfl <;> rfl

theorem read_bare {name : String} (hname : IsName name) {s : List Char} (hs : Stops s) (n : Nat) :
    read (n + 1) (name.toList ++ s) = some (.named name [], s) := by
  rw [read_word hname.ne_empty hname.all_isWordChar hs.head_not_word, readAfter_stops hs]

/-- What has been read at its end is read wherever an expression may end. -/
def Readable (e : TypeExpr) : Prop :=
  ∀ n s, sizeOf e ≤ n → Stops s → read n (e.display.toList ++ s) = some (e.outline, s)

theorem readList_display {args : List TypeExpr} (hne : args ≠ [])
    (hargs : ∀ a ∈ args, Readable a) {n : Nat} (hn : sizeOf args ≤ n) (s : List Char) :
    readList n ((displayList args).toList ++ ']' :: s) = some (outlineList args, s) := by
  induction args generalizing n with
  | nil => exact absurd rfl hne
  | cons a args ih =>
    obtain ⟨n, rfl⟩ : ∃ m, n = m + 1 := Nat.exists_eq_add_one.mpr (by simp at hn; omega)
    have ha : sizeOf a ≤ n := by simp at hn; omega
    have hrest : sizeOf args ≤ n := by simp at hn; omega
    cases args with
    | nil =>
      have hread := hargs a List.mem_cons_self n (']' :: s) ha (.inl rfl)
      rw [readList, displayList, hread]
      rfl
    | cons next args =>
      have hread := hargs a List.mem_cons_self n
        (',' :: ' ' :: ((displayList (next :: args)).toList ++ ']' :: s)) ha (.inr rfl)
      have hnext := ih (by simp) (fun b hb => hargs b (List.mem_cons_of_mem a hb)) hrest
      have htext : (displayList (a :: next :: args)).toList ++ ']' :: s =
          a.display.toList ++
            (',' :: ' ' :: ((displayList (next :: args)).toList ++ ']' :: s)) := by
        rw [displayList, String.toList_append, String.toList_append]
        simp
      rw [readList, htext, hread]
      simp only [Option.bind_eq_bind, Option.bind_some]
      rw [hnext]
      rfl

/-- Reading the text of an expression gives its outline and leaves what comes after it. -/
theorem readable {e : TypeExpr} (he : e.WellNamed) : Readable e := by
  induction he with
  | @intro e head below ih =>
    intro n s hn hs
    have hpos : 0 < n := by cases e <;> simp at hn <;> omega
    obtain ⟨n, rfl⟩ : ∃ m, n = m + 1 := Nat.exists_eq_add_one.mpr hpos
    cases e with
    | named name args =>
      have hname : IsName name := head name List.mem_cons_self
      cases args with
      | nil => exact read_bare hname hs n
      | cons a args =>
        have htext : (named name (a :: args)).display.toList ++ s =
            name.toList ++ ('[' :: ((displayList (a :: args)).toList ++ ']' :: s)) := by
          simp [display, String.toList_append]
        have hargs := readList_display (List.cons_ne_nil a args) ih (n := n)
          (by simp at hn ⊢; omega) s
        rw [htext, read_word hname.ne_empty hname.all_isWordChar (by simp; decide), readAfter,
          if_neg hname.ne_map, hargs]
        rfl
    | qualified package name =>
      have hpackage : IsName package := head package List.mem_cons_self
      have hname : IsName name := head name (List.mem_cons_of_mem _ List.mem_cons_self)
      obtain ⟨htake, hdrop⟩ := takeWhile_word hname.all_isWordChar hs.head_not_word
      have htext : (qualified package name).display.toList ++ s =
          package.toList ++ ('.' :: (name.toList ++ s)) := by
        simp [display, String.toList_append]
      rw [htext, read_word hpackage.ne_empty hpackage.all_isWordChar (by simp; decide), readAfter,
        htake, hdrop, String.ofList_toList]
      rfl
    | pointer e =>
      have hread := ih e (by simp [children]) n s (by simp at hn; omega) hs
      have htext : (pointer e).display.toList ++ s = '*' :: (e.display.toList ++ s) := by
        simp [display, String.toList_append]
      rw [htext, read, hread]
      rfl
    | slice e =>
      have hread := ih e (by simp [children]) n s (by simp at hn; omega) hs
      have htext : (slice e).display.toList ++ s = '[' :: ']' :: (e.display.toList ++ s) := by
        simp [display, String.toList_append]
      rw [htext, read, hread]
      rfl
    | array e =>
      have hread := ih e (by simp [children]) n s (by simp at hn; omega) hs
      have htext : (array e).display.toList ++ s =
          '[' :: 'N' :: ']' :: (e.display.toList ++ s) := by
        simp [display, String.toList_append]
      rw [htext, read, hread]
      rfl
    | struct fields =>
      have htext : (struct fields).display.toList ++ s =
          "struct".toList ++ ("\x7b...\x7d".toList ++ s) := by
        simp [display]
      rw [htext, read_word (by decide) (by decide) (by simp; decide)]
      simp [readAfter, outline]
    | map key value =>
      have hkey := ih key (by simp [children]) n (']' :: (value.display.toList ++ s))
        (by simp at hn; omega) (.inl rfl)
      have hvalue := ih value (by simp [children]) n s (by simp at hn; omega) hs
      have htext : (map key value).display.toList ++ s =
          "map".toList ++ ('[' :: (key.display.toList ++ ']' :: (value.display.toList ++ s))) := by
        simp [display, String.toList_append]
      rw [htext, read_word (by decide) (by decide) (by simp; decide), readAfter, if_pos rfl, hkey]
      simp only [Option.bind_eq_bind, Option.bind_some, List.drop_one, List.tail_cons, hvalue]
      rfl
    | chan e =>
      have hread := ih e (by simp [children]) n s (by simp at hn; omega) hs
      have htext : (chan e).display.toList ++ s =
          "chan".toList ++ (' ' :: (e.display.toList ++ s)) := by
        simp [display, String.toList_append]
      rw [htext, read_word (by decide) (by decide) (by simp; decide), readAfter, hread]
      rfl
    | interface =>
      have htext : interface.display.toList ++ s =
          "interface".toList ++ ("\x7b...\x7d".toList ++ s) := by
        simp [display]
      rw [htext, read_word (by decide) (by decide) (by simp; decide)]
      simp [readAfter, outline]
    | func =>
      have htext : func.display.toList ++ s = "func".toList ++ ("(...)".toList ++ s) := by
        simp [display]
      rw [htext, read_word (by decide) (by decide) (by simp; decide)]
      simp [readAfter, outline]
    | other text => exact read_bare (head text List.mem_cons_self) hs n

/-- Of well-named expressions, the text tells exactly the outline. -/
theorem display_eq_iff {e e' : TypeExpr} (he : e.WellNamed) (he' : e'.WellNamed) :
    e.display = e'.display ↔ e.outline = e'.outline := by
  constructor
  · intro h
    have hread := readable he (max (sizeOf e) (sizeOf e')) [] (Nat.le_max_left _ _) trivial
    have hread' := readable he' (max (sizeOf e) (sizeOf e')) [] (Nat.le_max_right _ _) trivial
    rw [h, hread', Option.some_inj] at hread
    exact (congrArg Prod.fst hread).symm
  · intro h
    rw [← display_outline e, h, display_outline]

end CallSchema.TypeExpr
