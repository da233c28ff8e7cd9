import CallSchema.Text.Blank
import CallSchema.Text.Pieces
import Mathlib.Data.List.DropRight

/-!
Laws of cutting, trimming and joining.

1. Cutting is splitting, and joining is intercalating (`cut_eq_splitOn`, `joined_eq_intercalate`).
2. Trimming leaves nothing exactly of blank texts (`trim_eq_nil_iff`), and leaves no blank character
   at the end (`not_isBlank_of_getLast?_trimEnd`).
3. `joined_append`: pieces can be joined in two parts.
4. `filter_trim_lines`: once trimmed and without the empty ones, the lines of a text are the pieces
   between its line feeds.
-/

namespace CallSchema.Text

/-! ## Cutting and joining -/

theorem joined_eq_intercalate (sep : List Char) (ps : List (List Char)) :
    joined sep ps = sep.intercalate ps := by
  induction ps with
  | nil => rfl
  | cons p ps ih =>
    cases ps with
    | nil => simp [joined]
    | cons q ps => simp [joined, ih]

theorem cut_eq_splitOn (sep : Char) (s : List Char) : cut sep s = s.splitOn sep := by
  have hsplit := List.splitOn_intercalate sep (fun p hp => not_mem_of_mem_cut hp)
    (cut_ne_nil sep s)
  rw [← joined_eq_intercalate, joined_cut] at hsplit
  exact hsplit.symm

theorem cut_of_notMem {sep : Char} {s : List Char} (h : sep ∉ s) : cut sep s = [s] := by
  induction s with
  | nil => rfl
  | cons c s ih =>
    rw [List.mem_cons, not_or] at h
    rw [cut, if_neg (Ne.symm h.1), ih h.2]

/-- The first piece ends at the first separator. -/
theorem cut_append {sep : Char} {s : List Char} (h : sep ∉ s) (rest : List Char) :
    cut sep (s ++ sep :: rest) = s :: cut sep rest := by
  induction s with
  | nil => simp [cut]
  | cons c s ih =>
    rw [List.mem_cons, not_or] at h
    rw [List.cons_append, cut, if_neg (Ne.symm h.1), ih h.2]

theorem joined_cons (sep p : List Char) {ps : List (List Char)} (h : ps ≠ []) :
    joined sep (p :: ps) = p ++ sep ++ joined sep ps := by
  cases ps with
  | nil => exact absurd rfl h
  | cons q ps => rfl

theorem joined_append (sep : List Char) {ps qs : List (List Char)} (hp : ps ≠ []) (hq : qs ≠ []) :
    joined sep (ps ++ qs) = joined sep ps ++ sep ++ joined sep qs := by
  induction ps with
  | nil => exact absurd rfl hp
  | cons p ps ih =>
    cases ps with
    | nil => exact joined_cons sep p hq
    | cons r ps =>
      rw [List.cons_append, joined_cons sep p (by simp), ih (by simp), joined_cons sep p (by simp)]
      simp only [List.append_assoc]

theorem joined_eq_nil_iff {sep : List Char} {ps : List (List Char)} (h : ∀ p ∈ ps, p ≠ []) :
    joined sep ps = [] ↔ ps = [] := by
  cases ps with
  | nil => simp [joined]
  | cons p ps =>
    have hp : p ≠ [] := h p List.mem_cons_self
    cases ps with
    | nil => simp [joined, hp]
    | cons q ps => simp [joined, hp]

theorem mem_joined {sep : List Char} {ps : List (List Char)} {c : Char} (h : c ∈ joined sep ps) :
    c ∈ sep ∨ ∃ p ∈ ps, c ∈ p := by
  induction ps with
  | nil => simp [joined] at h
  | cons p ps ih =>
    cases ps with
    | nil => exact .inr ⟨p, List.mem_cons_self, h⟩
    | cons q ps =>
      rw [joined_cons sep p (by simp), List.append_assoc, List.mem_append, List.mem_append] at h
      rcases h with h | h | h
      · exact .inr ⟨p, List.mem_cons_self, h⟩
      · exact .inl h
      · obtain hsep | ⟨r, hr, hc⟩ := ih h
        · exact .inl hsep
        · exact .inr ⟨r, List.mem_cons_of_mem p hr, hc⟩

/-- Joined pieces end as one of the pieces does. -/
theorem exists_getLast?_joined {sep : List Char} {ps : List (List Char)} {c : Char}
    (hne : ∀ p ∈ ps, p ≠ []) (h : c ∈ (joined sep ps).getLast?) : ∃ p ∈ ps, c ∈ p.getLast? := by
  induction ps with
  | nil => simp [joined] at h
  | cons p ps ih =>
    cases ps with
    | nil => exact ⟨p, List.mem_cons_self, h⟩
    | cons q ps =>
      have hrest : ∀ r ∈ q :: ps, r ≠ [] := fun r hr => hne r (List.mem_cons_of_mem p hr)
      have hjoined : joined sep (q :: ps) ≠ [] := by simp [joined_eq_nil_iff hrest]
      rw [joined_cons sep p (by simp), List.getLast?_append_of_ne_nil _ hjoined] at h
      obtain ⟨r, hr, hc⟩ := ih hrest h
      exact ⟨r, List.mem_cons_of_mem p hr, hc⟩

/-! ## Trimming -/

theorem trimEnd_eq_nil_iff {s : List Char} : trimEnd s = [] ↔ ∀ c ∈ s, isBlank c = true :=
  List.rdropWhile_eq_nil_iff

theorem trimEnd_concat (s : List Char) {c : Char} (hc : isBlank c = true) :
    trimEnd (s ++ [c]) = trimEnd s := List.rdropWhile_concat_pos isBlank s c hc

theorem mem_of_mem_trimEnd {s : List Char} {c : Char} (h : c ∈ trimEnd s) : c ∈ s :=
  (List.rdropWhile_prefix isBlank s).subset h

theorem not_isBlank_of_getLast?_trimEnd {s : List Char} {c : Char} (h : c ∈ (trimEnd s).getLast?) :
    ¬ isBlank c = true := by
  obtain ⟨hne, rfl⟩ := List.mem_getLast?_eq_getLast h
  exact List.rdropWhile_last_not isBlank s hne

theorem trim_eq_nil_iff {s : List Char} : trim s = [] ↔ ∀ c ∈ s, isBlank c = true := by
  rw [trim, trimEnd_eq_nil_iff, trimStart]
  constructor
  · intro h
    refine List.dropWhile_eq_nil_iff.mp (List.eq_nil_iff_forall_not_mem.mpr fun c hc => ?_)
    have hne := List.ne_nil_of_mem hc
    have hhead := List.head_dropWhile_not isBlank hne
    rw [h _ (List.head_mem hne)] at hhead
    cases hhead
  · intro h c hc
    exact h c ((List.dropWhile_sublist isBlank).subset hc)

theorem mem_of_mem_trim {s : List Char} {c : Char} (h : c ∈ trim s) : c ∈ s :=
  (List.dropWhile_sublist isBlank).subset (mem_of_mem_trimEnd h)

theorem trim_concat (s : List Char) {c : Char} (hc : isBlank c = true) :
    trim (s ++ [c]) = trim s := by
  rw [trim, trim, trimStart, trimStart, List.dropWhile_append]
  split
  · rename_i h
    rw [List.isEmpty_iff.mp h]
    simp [hc]
  · exact trimEnd_concat _ hc

/-! ## Lines -/

theorem trim_dropReturn (line : List Char) : trim (dropReturn line) = trim line := by
  rw [dropReturn]
  split
  · rename_i h
    conv_rhs => rw [← List.dropLast_append_getLast? '\r' h, trim_concat _ (by decide)]
  · rfl

/-- Without blank ends and empty lines, a text falls into the pieces between its line feeds. -/
theorem filter_trim_lines (s : List Char) :
    ((lines s).map trim).filter (!·.isEmpty) = ((cut '\n' s).map trim).filter (!·.isEmpty) := by
  rw [lines]
  induction cut '\n' s with
  | nil => rfl
  | cons p ps ih =>
    cases ps with
    | nil =>
      rw [linesOfPieces]
      split
      · rename_i h
        rw [List.isEmpty_iff.mp h]
        rfl
      · rfl
    | cons q ps =>
      rw [linesOfPieces, List.map_cons, trim_dropReturn, List.map_cons, List.filter_cons,
        List.filter_cons, ih]

end CallSchema.Text
