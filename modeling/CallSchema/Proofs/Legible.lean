import CallSchema.Go.Grammar
import CallSchema.Proofs.Paths
import CallSchema.Proofs.Reading
import Mathlib.Data.List.TakeWhile

/-!
Type expressions that can be told from their texts.

A `Legible` expression holds no struct and no opaque text, and its names are identifiers of Go.
Of such expressions the text tells everything (`Legible.outline_eq`), so:

1. `Legible.display_append_inj`: where two texts begin with such expressions, they begin with the
   same one. In particular no two expressions have one text (`Legible.display_inj`).
2. `guarded_display_iff`, `cut_iff_mem`: the guard against recursive types compares texts, but
   catches an expression exactly if it is itself among those that are being expanded.
-/

namespace CallSchema.Go

/-- Whether the character can stand in an identifier. Which of the characters beyond ASCII are
    letters is left open here: all of them count. -/
def isIdentifierChar (c : Char) : Bool := isLetterOrDigit c || 0x80 ≤ c.toNat

/-- A word that is not reserved. All identifiers are such words, in whatever version of Unicode;
    that they do not begin with a digit is of no matter here. -/
def IsIdentifier (s : String) : Prop :=
  s ≠ "" ∧ s.toList.all isIdentifierChar = true ∧ s ∉ reservedWords

instance (s : String) : Decidable (IsIdentifier s) :=
  inferInstanceAs (Decidable (s ≠ "" ∧ s.toList.all isIdentifierChar = true ∧ s ∉ reservedWords))

/-- What a source file has as an identifier is one. -/
theorem isIdentifier_of_wordLength? {s : String}
    (h : Lexeme.wordLength? s.toList = some s.toList.length) (hs : s ∉ reservedWords) :
    IsIdentifier s := by
  cases hlist : s.toList with
  | nil => simp [hlist, Lexeme.wordLength?] at h
  | cons c cs =>
    rw [hlist, Lexeme.wordLength?] at h
    split at h
    · next hc =>
      have hlength : (cs.takeWhile isLetterOrDigit).length = cs.length := by simpa using h
      have htake : cs.takeWhile isLetterOrDigit = cs :=
        (List.takeWhile_prefix isLetterOrDigit).eq_of_length hlength
      refine ⟨?_, List.all_eq_true.mpr fun d hd => ?_, hs⟩
      · rintro rfl
        simp at hlist
      · have hletter : isLetterOrDigit d = true := by
          rw [hlist] at hd
          rcases List.mem_cons.mp hd with rfl | hd
          · exact isLetterOrDigit_of_isLetter hc
          · exact List.mem_takeWhile_imp (htake.symm ▸ hd)
        simp [isIdentifierChar, hletter]
    · simp at h

end CallSchema.Go

namespace CallSchema.TypeExpr

/-- An identifier can be told from what stands around it in the text of a type. -/
theorem isName_of_isIdentifier {s : String} (h : Go.IsIdentifier s) : IsName s := by
  obtain ⟨hne, hall, hreserved⟩ := h
  refine ⟨hne, List.all_eq_true.mpr fun c hc => ?_, ?_⟩
  · have hd : delimiters.all (fun d => !Go.isIdentifierChar d) = true := by decide +kernel
    rw [isWordChar, Bool.not_eq_true', ← Bool.not_eq_true, List.contains_iff_mem]
    intro hm
    have hchar : Go.isIdentifierChar c = true := List.all_eq_true.mp hall c hc
    have hnot : (!Go.isIdentifierChar c) = true := List.all_eq_true.mp hd c hm
    simp [hchar] at hnot
  · rintro rfl
    exact hreserved (by decide)

/-- Whether the text of the expression's head is all there is to it. -/
def isOpen : TypeExpr → Bool
  | .struct _ | .other _ => false
  | _ => true

/-- No struct and no opaque text is in the expression, and all its names are identifiers. -/
def Legible (e : TypeExpr) : Prop :=
  e.All fun e => e.isOpen = true ∧ ∀ name ∈ e.headNames, Go.IsIdentifier name

instance (e : TypeExpr) : Decidable e.Legible :=
  inferInstanceAs (Decidable (e.All fun e =>
    e.isOpen = true ∧ ∀ name ∈ e.headNames, Go.IsIdentifier name))

namespace Legible

variable {e e' : TypeExpr}

theorem wellNamed (h : e.Legible) : e.WellNamed :=
  h.imp fun _ ⟨_, hnames⟩ name hname => isName_of_isIdentifier (hnames name hname)

/-- The text leaves out nothing. -/
theorem outline_eq (h : e.Legible) : e.outline = e := by
  induction h with
  | @intro e head _ ih =>
    cases e with
    | named name args =>
      have hargs : args.map outline = args := (List.map_congr_left ih).trans args.map_id'
      rw [outline, outlineList_eq_map, hargs]
    | pointer e | slice e | array e | chan e => rw [outline, ih e (by simp [children])]
    | map key value =>
      rw [outline, ih key (by simp [children]), ih value (by simp [children])]
    | struct _ | other _ => exact absurd head.1 (by simp [isOpen])
    | qualified _ _ | interface | func => rfl

/-- Texts that begin with expressions, up to where a type may end, begin with the same one. -/
theorem display_append_inj (he : e.Legible) (he' : e'.Legible) {s s' : List Char} (hs : Stops s)
    (hs' : Stops s') (h : e.display.toList ++ s = e'.display.toList ++ s') : e = e' ∧ s = s' := by
  have hread := readable he.wellNamed (max (sizeOf e) (sizeOf e')) s (Nat.le_max_left _ _) hs
  have hread' := readable he'.wellNamed (max (sizeOf e) (sizeOf e')) s' (Nat.le_max_right _ _) hs'
  rw [h, hread', Option.some_inj, he.outline_eq, he'.outline_eq] at hread
  obtain ⟨rfl, rfl⟩ := Prod.mk.inj hread
  exact ⟨rfl, rfl⟩

/-- Different expressions have different texts. -/
theorem display_inj (he : e.Legible) (he' : e'.Legible) : e.display = e'.display ↔ e = e' :=
  ⟨fun h => (he.display_append_inj he' (show Stops [] from trivial) (show Stops [] from trivial)
    (by rw [h])).1, fun h => h ▸ rfl⟩

end Legible

end CallSchema.TypeExpr

namespace CallSchema.Expansion

open TypeExpr (Legible)

/-- The guard catches the named expressions that are among those being expanded. -/
theorem guarded_display_iff {policy : CyclePolicy} {types : List TypeExpr} {e : TypeExpr}
    {r : Except SchemaError Definition} (htypes : ∀ t ∈ types, t.Legible) (he : e.Legible) :
    guarded (some policy) (types.map TypeExpr.display) e = some r ↔
      (identity? e).isSome ∧ e ∈ types ∧ r = recursiveReference policy e.display := by
  cases hid : identity? e with
  | none => simp [guarded, hid]
  | some identity =>
    obtain ⟨name, args, rfl⟩ := exists_eq_named hid
    obtain rfl := Option.some.inj hid
    have hmem : (TypeExpr.named name args).display ∈ types.map TypeExpr.display ↔
        TypeExpr.named name args ∈ types := by
      constructor
      · intro h
        obtain ⟨t, ht, hdisplay⟩ := List.mem_map.mp h
        exact ((htypes t ht).display_inj he).mp hdisplay ▸ ht
      · exact List.mem_map_of_mem
    constructor
    · intro h
      obtain ⟨_, identity, hpolicy, hid', hm, rfl⟩ := guarded_eq_some h
      obtain rfl := Option.some.inj hpolicy
      obtain rfl := Option.some.inj hid'
      exact ⟨rfl, hmem.mp hm, rfl⟩
    · rintro ⟨-, hm, rfl⟩
      exact guarded_of_mem hid (hmem.mpr hm)

/-- On a path of legible types, those are cut that stand on the path. -/
theorem cut_iff_mem {provider : Provider} {policy : CyclePolicy} {f : FuncDecl}
    {path : List Occurrence} {o : Occurrence} (hpath : ∀ m ∈ path, m.expr.Legible)
    (ho : o.expr.Legible) :
    Cut provider policy f path o ↔
      Comes provider policy f path o ∧ o.IsNamed ∧ o.expr ∈ path.map Occurrence.expr := by
  rw [cut_iff, List.mem_map]
  refine and_congr_right fun _ => and_congr_right fun _ => exists_congr fun m => ?_
  exact and_congr_right fun hm => (hpath m hm).display_inj ho

/-- Of types without structs and opaque texts, whose names are identifiers, no two have one text.
    So the guard, which goes by texts, catches an expression exactly if it is itself among the types
    that are being expanded, on every path of every expansion. -/
theorem display_identifies :
    (∀ e e' : TypeExpr, e.Legible → e'.Legible → e.display = e'.display → e = e') ∧
    (∀ (policy : CyclePolicy) (types : List TypeExpr) (e : TypeExpr)
      (r : Except SchemaError Definition), (∀ t ∈ types, t.Legible) → e.Legible →
        (guarded (some policy) (types.map TypeExpr.display) e = some r ↔
          (identity? e).isSome ∧ e ∈ types ∧ r = recursiveReference policy e.display)) ∧
    ∀ (provider : Provider) (policy : CyclePolicy) (f : FuncDecl) (path : List Occurrence)
      (o : Occurrence), (∀ m ∈ path, m.expr.Legible) → o.expr.Legible →
        (Cut provider policy f path o ↔
          Comes provider policy f path o ∧ o.IsNamed ∧ o.expr ∈ path.map Occurrence.expr) :=
  ⟨fun _ _ he he' => (he.display_inj he').mp, fun _ _ _ _ => guarded_display_iff,
    fun _ _ _ _ _ => cut_iff_mem⟩

/-- `Slot[int, []*time.Time]`. -/
def timeSlot : TypeExpr :=
  .named "Slot" [.named "int" [], .slice (.pointer (.qualified "time" "Time"))]

/-- `Slot[map[int]chan func(...)]`. -/
def funcSlot : TypeExpr := .named "Slot" [.map (.named "int" []) (.chan .func)]

theorem display_identifies_slots :
    timeSlot.Legible ∧ funcSlot.Legible ∧ timeSlot.display ≠ funcSlot.display ∧
      guarded (some .error) ([timeSlot, funcSlot].map TypeExpr.display) funcSlot =
        some (recursiveReference .error "Slot[map[int]chan func(...)]") ∧
      ¬ Cut (Package.provider {}) .null { name := "F" } [⟨[], timeSlot⟩] ⟨[], funcSlot⟩ := by
  obtain ⟨hinj, hguard, hcut⟩ := display_identifies
  have htime : timeSlot.Legible := by decide +kernel
  have hfunc : funcSlot.Legible := by decide +kernel
  have hne : funcSlot ≠ timeSlot := by simp [funcSlot, timeSlot]
  refine ⟨htime, hfunc, fun h => hne (hinj _ _ hfunc htime h.symm), ?_, fun h => ?_⟩
  · exact (hguard _ _ _ _ (by simp [htime, hfunc]) hfunc).mpr ⟨rfl, by simp, by rfl⟩
  · exact hne (by simpa using ((hcut _ _ _ _ _ (by simp [htime]) hfunc).mp h).2.2)

end CallSchema.Expansion
