/-!
Cutting a text at a character and joining the pieces again.

* `cut` always has a first piece, no piece holds the separator (`not_mem_of_mem_cut`), and joining
  the pieces with it gives the text back (`joined_cut`).
* `lines` cuts at line feeds, drops the carriage return before each of them, and begins no line
  after the last one.
-/

namespace CallSchema.Text

/-- The pieces between the occurrences of `sep`, of which there is one more than of `sep`. -/
def cut (sep : Char) : List Char → List (List Char)
  | [] => [[]]
  | c :: r =>
    if c = sep then [] :: cut sep r
    else match cut sep r with
      | [] => [[c]]
      | piece :: pieces => (c :: piece) :: pieces

/-- The pieces in order, with `sep` between neighbours. -/
def joined (sep : List Char) : List (List Char) → List Char
  | [] => []
  | [piece] => piece
  | piece :: next :: pieces => piece ++ sep ++ joined sep (next :: pieces)

/-- The first piece up to `sep`. -/
def firstPiece (sep : Char) (s : List Char) : List Char := s.takeWhile (· ≠ sep)

theorem cut_ne_nil (sep : Char) (s : List Char) : cut sep s ≠ [] := by
  cases s with
  | nil => simp [cut]
  | cons c r =>
    simp only [cut]
    split
    · simp
    · split <;> simp

theorem joined_cut (sep : Char) (s : List Char) : joined [sep] (cut sep s) = s := by
  induction s with
  | nil => rfl
  | cons c r ih =>
    simp only [cut]
    have hne := cut_ne_nil sep r
    split
    · rename_i h
      subst h
      cases hc : cut c r with
      | nil => exact absurd hc hne
      | cons p ps => simp [joined, ← hc, ih]
    · cases hc : cut sep r with
      | nil => exact absurd hc hne
      | cons p ps =>
        rw [hc] at ih
        cases ps <;> simp_all [joined]

theorem not_mem_of_mem_cut {sep : Char} {s p : List Char} (h : p ∈ cut sep s) : sep ∉ p := by
  induction s generalizing p with
  | nil => simp_all [cut]
  | cons c r ih =>
    simp only [cut] at h
    split at h
    · rcases List.mem_cons.1 h with rfl | h
      · simp
      · exact ih h
    · rename_i hc
      cases hr : cut sep r with
      | nil => exact absurd hr (cut_ne_nil sep r)
      | cons q qs =>
        rw [hr] at h ih
        rcases List.mem_cons.1 h with rfl | h
        · have := ih (List.mem_cons_self ..)
          simp only [List.mem_cons, not_or]
          exact ⟨fun e => hc e.symm, this⟩
        · exact ih (List.mem_cons_of_mem _ h)

/-- A line without the carriage return it may end with. -/
def dropReturn (line : List Char) : List Char :=
  if line.getLast? = some '\r' then line.dropLast else line

/-- The lines that the pieces between line feeds stand for: each but the last was ended by a line
    feed, and an empty last one is no line. -/
def linesOfPieces : List (List Char) → List (List Char)
  | [] => []
  | [last] => if last.isEmpty then [] else [last]
  | line :: next :: more => dropReturn line :: linesOfPieces (next :: more)

/-- The lines of a text. -/
def lines (s : List Char) : List (List Char) := linesOfPieces (cut '\n' s)

end CallSchema.Text
