import CallSchema.Go.Attachment
import Mathlib.Data.List.Chain
import Mathlib.Data.List.Nodup

/-!
Whose comment a comment is.

A list of siblings in the order of the source (`InOrder`) holds declarations, comments, separators
and line ends. The comments of the declarations, one declaration after the other and those above it
before those behind it, are found in this order among the siblings (`attributed_sublist`), so that
no comment belongs to two declarations, or to one in two ways.

What decides is the line of the token before a comment. A comment that begins where a token ends is
passed over by whatever comes below it (`freeComments`); and as long as the comments behind a
declaration are collected, the line is the one where a token ends (`endsTokenOn`).
-/

open scoped List

namespace CallSchema.Go

/-- Whether the node can have comments: it is no comment itself, no separator and no line end. -/
def Node.isDeclaration (n : Node) : Bool :=
  !n.isComment && n.kind != .symbol "," && n.kind != .symbol ";" && n.kind != .newline

/-- The siblings stand in the order of the source: none ends before it begins, and none begins
    before the one in front of it ends. Only lines count. -/
structure InOrder (siblings : List Node) : Prop where
  spans : ∀ n ∈ siblings, n.firstLine ≤ n.lastLine
  follows : siblings.IsChain fun n next => n.lastLine ≤ next.firstLine

theorem InOrder.tail {n : Node} {after : List Node} (h : InOrder (n :: after)) : InOrder after :=
  ⟨fun m hm => h.spans m (List.mem_cons_of_mem n hm), h.follows.tail⟩

/-- The comments of the declarations among the siblings: of each, those above it and those behind
    it. -/
def attributed (siblings : List Node) : List (List Node) :=
  ((sites siblings).filter (·.node.isDeclaration)).flatMap fun s => [s.leading, s.trailing]

/-! ## The comments above a node -/

/-- The comments that stand directly before a node and begin on no line where another token ends,
    the nearest first. -/
def freeComments : (before : List Node) → List Node
  | [] => []
  | n :: before =>
    if n.isComment && !endsTokenOn n.firstLine before then n :: freeComments before else []

theorem freeComments_of_endsTokenOn {n : Node} {before : List Node}
    (h : endsTokenOn n.firstLine before = true) : freeComments (n :: before) = [] := by
  simp [freeComments, h]

theorem freeComments_of_not_comment {n : Node} (h : n.isComment = false) (before : List Node) :
    freeComments (n :: before) = [] := by
  simp [freeComments, h]

/-- Only free comments belong to the node below them. -/
theorem commentsAbove_prefix_free (line : Nat) (before : List Node) :
    commentsAbove line before <+: freeComments before := by
  induction before generalizing line with
  | nil => exact List.prefix_rfl
  | cons n before ih =>
    rw [commentsAbove]
    split
    · exact List.nil_prefix
    · next hstop =>
      have hfree : n.isComment && !endsTokenOn n.firstLine before := by
        simp only [Bool.or_eq_true, not_or, Bool.not_eq_true', Bool.not_eq_false] at hstop
        simp [hstop.1.1, hstop.2]
      rw [freeComments, if_pos hfree]
      exact List.cons_prefix_cons.mpr ⟨rfl, ih n.firstLine⟩

theorem isComment_of_mem_commentsAbove {line : Nat} {before : List Node} {n : Node}
    (h : n ∈ commentsAbove line before) : n.isComment = true := by
  induction before generalizing line with
  | nil => exact absurd h List.not_mem_nil
  | cons m before ih =>
    rw [commentsAbove] at h
    split at h
    · exact absurd h List.not_mem_nil
    · next hstop =>
      rcases List.mem_cons.mp h with rfl | h
      · simp only [Bool.or_eq_true, not_or] at hstop
        simpa using hstop.1.1
      · exact ih h

theorem commentsAbove_prefix_before (line : Nat) (before : List Node) :
    commentsAbove line before <+: before := by
  induction before generalizing line with
  | nil => exact List.prefix_rfl
  | cons n before ih =>
    rw [commentsAbove]
    split
    · exact List.nil_prefix
    · exact List.cons_prefix_cons.mpr ⟨rfl, ih n.firstLine⟩

/-- No blank line stands in the run of comments, or between it and the node below. -/
theorem isChain_commentsAbove (n : Node) (before : List Node) :
    (n :: commentsAbove n.firstLine before).IsChain
      fun next n => next.firstLine ≤ n.lastLine + 1 := by
  induction before generalizing n with
  | nil => exact List.isChain_singleton n
  | cons m before ih =>
    rw [commentsAbove]
    split
    · exact List.isChain_singleton n
    · next hstop =>
      have hline : ¬ m.lastLine + 1 < n.firstLine := fun hlt => hstop (by simp [hlt])
      exact List.isChain_cons_cons.mpr ⟨by omega, ih m⟩

/-! ## The comments behind a node -/

theorem isComment_of_mem_commentsOn {line : Nat} {after : List Node} {n : Node}
    (h : n ∈ commentsOn line after) : n.isComment = true := by
  induction after with
  | nil => exact absurd h List.not_mem_nil
  | cons m after ih =>
    rw [commentsOn] at h
    split at h
    · exact absurd h List.not_mem_nil
    · split at h
      · next hm =>
        rcases List.mem_cons.mp h with rfl | h
        · exact hm
        · exact ih h
      · split at h
        · exact ih h
        · exact absurd h List.not_mem_nil

/-- Where a node goes on to a later line, none of the next ones begins on the line. -/
theorem commentsOn_of_lt {line : Nat} {n : Node} {after : List Node} (h : InOrder (n :: after))
    (hlt : line < n.lastLine) : commentsOn line after = [] := by
  cases after with
  | nil => rfl
  | cons m after =>
    have hnext : n.lastLine ≤ m.firstLine := (List.isChain_cons_cons.mp h.follows).1
    have hline : m.firstLine ≠ line := by omega
    rw [commentsOn, if_pos hline]

/-! ## All comments of a list of siblings -/

/-- The comments of the declarations in the rest of a list of siblings, one after the other. -/
def attributedAfter (before rest : List Node) : List Node :=
  ((sitesAfter before rest).filter (·.node.isDeclaration)).flatMap fun s => s.leading ++ s.trailing

theorem flatten_attributed (siblings : List Node) :
    (attributed siblings).flatten = attributedAfter [] siblings := by
  simp [attributed, attributedAfter, sites, List.flatMap_def, List.flatten_flatten,
    Function.comp_def]

theorem attributedAfter_declaration {n : Node} (h : n.isDeclaration = true)
    (before after : List Node) :
    attributedAfter before (n :: after) =
      (commentsAbove n.firstLine before).reverse ++
        (commentsOn n.lastLine after ++ attributedAfter (n :: before) after) := by
  simp [attributedAfter, sitesAfter, h, Site.leading, Site.trailing]

theorem attributedAfter_other {n : Node} (h : n.isDeclaration = false)
    (before after : List Node) :
    attributedAfter before (n :: after) = attributedAfter (n :: before) after := by
  simp [attributedAfter, sitesAfter, h]

theorem endsTokenOn_declaration {n : Node} (h : n.isDeclaration = true) (before : List Node) :
    endsTokenOn n.lastLine (n :: before) = true := by
  simp only [Node.isDeclaration, Bool.and_eq_true] at h
  rw [endsTokenOn]
  simp_all

/-- A node that goes on the comments behind a declaration keeps the line as one where a token
    ends. -/
theorem endsTokenOn_cons {line : Nat} {n : Node} {before : List Node} (hn : n.lastLine = line)
    (hkind : n.kind ≠ .newline) (h : endsTokenOn line before = true) :
    endsTokenOn line (n :: before) = true := by
  rw [endsTokenOn, if_neg (not_not.mpr hn)]
  split
  · exact h
  · simpa using hkind

/-- The comments of the declarations in the rest of a list are found, in order, among the siblings
    that they may stand at. -/
structure Found (rest : List Node) : Prop where
  /-- The free comments before the rest may belong to its first declaration. -/
  above : ∀ before, attributedAfter before rest <+ (freeComments before).reverse ++ rest
  /-- Behind a place where a token ends on the line, and no comment is free, the comments on that
      line can be put in front of them. -/
  behind : ∀ line before, endsTokenOn line before = true → freeComments before = [] →
    commentsOn line rest ++ attributedAfter before rest <+ rest

namespace Found

variable {n : Node} {after before : List Node} {line : Nat}

/-- Where no free comment stands before the rest, the rest is all there is. -/
theorem of_not_free (h : Found after) (hfree : freeComments before = []) :
    attributedAfter before after <+ after := by
  simpa [hfree] using h.above before

theorem above_declaration (h : Found after) (hdecl : n.isDeclaration = true)
    (before : List Node) :
    attributedAfter before (n :: after) <+ (freeComments before).reverse ++ n :: after := by
  have hcomment : n.isComment = false := by
    simp only [Node.isDeclaration, Bool.and_eq_true, Bool.not_eq_true'] at hdecl
    exact hdecl.1.1.1
  have habove : commentsAbove n.firstLine before <+ freeComments before :=
    (commentsAbove_prefix_free n.firstLine before).sublist
  have hbehind : commentsOn n.lastLine after ++ attributedAfter (n :: before) after <+ after :=
    h.behind n.lastLine (n :: before) (endsTokenOn_declaration hdecl before)
      (freeComments_of_not_comment hcomment before)
  rw [attributedAfter_declaration hdecl]
  exact habove.reverse.append (hbehind.cons n)

theorem above_other (h : Found after) (hdecl : n.isDeclaration = false) (before : List Node) :
    attributedAfter before (n :: after) <+ (freeComments before).reverse ++ n :: after := by
  rw [attributedAfter_other hdecl]
  -- A free comment waits for the next declaration. Anything else ends the run of those before it.
  by_cases hfree : n.isComment && !endsTokenOn n.firstLine before
  · have hmore : freeComments (n :: before) = n :: freeComments before := by
      rw [freeComments, if_pos hfree]
    simpa [hmore] using h.above (n :: before)
  · have hnone : freeComments (n :: before) = [] := by rw [freeComments, if_neg hfree]
    exact (h.of_not_free hnone).trans
      ((List.sublist_cons_self n after).trans (List.sublist_append_right _ _))

theorem above_cons (h : Found after) (n : Node) (before : List Node) :
    attributedAfter before (n :: after) <+ (freeComments before).reverse ++ n :: after := by
  cases hdecl : n.isDeclaration with
  | true => exact h.above_declaration hdecl before
  | false => exact h.above_other hdecl before

/-- The comments on a line go on behind a comment or separator: it ends on the line as well, or
    nothing behind it begins there. -/
theorem goes_on (h : Found after) (horder : InOrder (n :: after)) (hline : n.firstLine = line)
    (hkind : n.kind ≠ .newline) (hdecl : n.isDeclaration = false)
    (hfree : freeComments (n :: before) = []) (htoken : endsTokenOn line before = true) :
    commentsOn line after ++ attributedAfter before (n :: after) <+ after := by
  rw [attributedAfter_other hdecl]
  by_cases hlt : line < n.lastLine
  · rw [commentsOn_of_lt horder hlt]
    exact h.of_not_free hfree
  · have hspan := horder.spans n List.mem_cons_self
    have hlast : n.lastLine = line := by omega
    exact h.behind line (n :: before) (endsTokenOn_cons hlast hkind htoken) hfree

theorem behind_cons (h : Found after) (horder : InOrder (n :: after))
    (htoken : endsTokenOn line before = true) (hfree : freeComments before = []) :
    commentsOn line (n :: after) ++ attributedAfter before (n :: after) <+ n :: after := by
  have hskip : attributedAfter before (n :: after) <+ n :: after := by
    simpa [hfree] using h.above_cons n before
  rw [commentsOn]
  split
  · exact hskip
  · next hline =>
    have hline : n.firstLine = line := not_not.mp hline
    split
    · next hcomment =>
      have hkind : n.kind ≠ .newline := fun hk => by simp [Node.isComment, hk] at hcomment
      have hdecl : n.isDeclaration = false := by simp [Node.isDeclaration, hcomment]
      have hnone : freeComments (n :: before) = [] :=
        freeComments_of_endsTokenOn (hline ▸ htoken)
      exact (h.goes_on horder hline hkind hdecl hnone htoken).cons_cons n
    · next hcomment =>
      have hnone : freeComments (n :: before) = [] :=
        freeComments_of_not_comment (by simpa using hcomment) before
      split
      · next hseparator =>
        have hkind : n.kind ≠ .newline := by
          rcases hseparator with hk | hk <;> simp [hk]
        have hdecl : n.isDeclaration = false := by
          rcases hseparator with hk | hk <;> simp [Node.isDeclaration, hk]
        exact (h.goes_on horder hline hkind hdecl hnone htoken).cons n
      · exact hskip

end Found

theorem found {rest : List Node} (h : InOrder rest) : Found rest := by
  induction rest with
  | nil => exact ⟨fun _ => List.nil_sublist _, fun _ _ _ _ => List.nil_sublist _⟩
  | cons n after ih =>
    have hafter : Found after := ih h.tail
    exact ⟨hafter.above_cons n, fun _ _ htoken hfree => hafter.behind_cons h htoken hfree⟩

theorem isComment_of_mem_attributedAfter {before rest : List Node} {c : Node}
    (h : c ∈ attributedAfter before rest) : c.isComment = true := by
  obtain ⟨s, -, hc⟩ := List.mem_flatMap.mp h
  rcases List.mem_append.mp hc with hc | hc
  · exact isComment_of_mem_commentsAbove (List.mem_reverse.mp hc)
  · exact isComment_of_mem_commentsOn hc

/-- A node stands where its site says. -/
theorem eq_of_mem_sitesAfter {before siblings : List Node} {s : Site}
    (h : s ∈ sitesAfter before siblings) :
    before.reverse ++ siblings = s.before.reverse ++ s.node :: s.after := by
  induction siblings generalizing before with
  | nil => exact absurd h List.not_mem_nil
  | cons n after ih =>
    rcases List.mem_cons.mp h with rfl | h
    · rfl
    · rw [← ih h, List.reverse_cons, List.append_assoc, List.singleton_append]

/-- The comments above a node are the run right before it, which no blank line interrupts. -/
theorem leading_of_mem_sites {siblings : List Node} {s : Site} (h : s ∈ sites siblings) :
    (∃ rest, siblings = rest ++ s.leading ++ s.node :: s.after) ∧
      (∀ c ∈ s.leading, c.isComment = true) ∧
      (s.leading ++ [s.node]).IsChain fun n next => next.firstLine ≤ n.lastLine + 1 := by
  refine ⟨?_, fun c hc => isComment_of_mem_commentsAbove (List.mem_reverse.mp hc), ?_⟩
  · obtain ⟨rest, hrest⟩ := commentsAbove_prefix_before s.node.firstLine s.before
    refine ⟨rest.reverse, ?_⟩
    have hplace : siblings = s.before.reverse ++ s.node :: s.after := eq_of_mem_sitesAfter h
    rw [hplace, ← hrest, List.reverse_append]
    rfl
  · rw [Site.leading, ← List.reverse_cons, List.isChain_reverse]
    exact isChain_commentsAbove s.node s.before

/-- No comment belongs to two declarations, or to one in two ways.

    In a list of siblings in the order of the source, the comments of the declarations are found in
    one go among the comments of the list, so that the lists of comments have nothing in common if
    all siblings differ. Those above a node, whatever it is, are the run of comments right before
    it, in which and behind which no line is blank. -/
theorem attributed_sublist {siblings : List Node} (h : InOrder siblings) :
    (attributed siblings).flatten <+ siblings.filter Node.isComment ∧
      (siblings.Nodup → (attributed siblings).Pairwise List.Disjoint) ∧
      ∀ s ∈ sites siblings,
        (∃ rest, siblings = rest ++ s.leading ++ s.node :: s.after) ∧
        (∀ c ∈ s.leading, c.isComment = true) ∧
        (s.leading ++ [s.node]).IsChain fun n next => next.firstLine ≤ n.lastLine + 1 := by
  have hall : (attributed siblings).flatten <+ siblings := by
    rw [flatten_attributed]
    simpa [freeComments] using (found h).above []
  refine ⟨?_, fun hn => (List.nodup_flatten.mp (hall.nodup hn)).2, fun s => leading_of_mem_sites⟩
  have hcomments : (attributed siblings).flatten.filter Node.isComment =
      (attributed siblings).flatten := by
    rw [flatten_attributed]
    exact List.filter_eq_self.mpr fun c => isComment_of_mem_attributedAfter
  rw [← hcomments]
  exact hall.filter Node.isComment

/-- The fields and comments of

    ```
    A int // a
    /* b
    */ // c
    B int; // d
    ```
-/
def fieldSiblings : List Node :=
  [⟨.fieldDeclaration, none, "A int", ⟨⟨0, 0⟩, ⟨5, 0⟩⟩, []⟩,
   ⟨.comment, none, "// a", ⟨⟨6, 0⟩, ⟨10, 0⟩⟩, []⟩,
   ⟨.comment, none, "/* b\n*/", ⟨⟨11, 1⟩, ⟨18, 2⟩⟩, []⟩,
   ⟨.comment, none, "// c", ⟨⟨19, 2⟩, ⟨23, 2⟩⟩, []⟩,
   ⟨.fieldDeclaration, none, "B int", ⟨⟨24, 3⟩, ⟨29, 3⟩⟩, []⟩,
   ⟨.symbol ";", none, ";", ⟨⟨29, 3⟩, ⟨30, 3⟩⟩, []⟩,
   ⟨.comment, none, "// d", ⟨⟨31, 3⟩, ⟨35, 3⟩⟩, []⟩]

/-- The comment on the line where the one before it ends belongs to the field below. -/
theorem attributed_sublist_fields :
    InOrder fieldSiblings ∧
      (attributed fieldSiblings).map (List.map Node.text) =
        [[], ["// a"], ["/* b\n*/", "// c"], ["// d"]] ∧
      (attributed fieldSiblings).flatten <+ fieldSiblings.filter Node.isComment := by
  have h : InOrder fieldSiblings := ⟨by decide, by decide⟩
  exact ⟨h, by decide, (attributed_sublist h).1⟩

end CallSchema.Go
