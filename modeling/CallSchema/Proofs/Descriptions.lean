import CallSchema.Comment
import CallSchema.Proofs.Pieces

/-!
Descriptions by their comments.

1. `describe_append`: the description of comments in two parts is that of the parts with one space
   between, or that of one part if the other has none.
2. `descriptionLines_blockComment`: a block comment counts as its lines, whatever ends these.
3. `describe_eq_empty_iff`: a description is empty exactly if all lines of all comments are blank.
4. `newline_notMem_describe`, `not_isBlank_of_getLast?_describe`: the description of Go comments is
   one line, and no description ends in white space.

`LineOf` says what the lines of a comment are, apart from the way in which they are found.
-/

namespace CallSchema

open Text

/-! ## Comments and their lines -/

/-- The block comment around a text. -/
def blockText (body : List Char) : List Char := '/' :: '*' :: (body ++ ['*', '/'])

/-- A line of a comment: the text behind the marker of a line comment, a piece between the line
    feeds of a block comment, or all of a text that is no comment. -/
inductive LineOf : List Char → List Char → Prop where
  | line (body : List Char) : LineOf ('/' :: '/' :: body) body
  | block {body line : List Char} (h : line ∈ body.splitOn '\n') : LineOf (blockText body) line
  | bare {text : List Char} (hline : ∀ body, text ≠ '/' :: '/' :: body)
      (hblock : ∀ body, text ≠ blockText body) : LineOf text text

/-- A comment of Go source. -/
inductive IsGoComment : List Char → Prop where
  | line {body : List Char} (h : '\n' ∉ body) : IsGoComment ('/' :: '/' :: body)
  | block (body : List Char) : IsGoComment (blockText body)

/-- What a line of a block comment ends with. -/
inductive LineEnd where
  | feed
  | returnAndFeed
deriving Repr, DecidableEq

def LineEnd.chars : LineEnd → List Char
  | feed => ['\n']
  | returnAndFeed => ['\r', '\n']

/-- Lines with their ends, and a last one without. -/
def manyLines (ended : List (List Char × LineEnd)) (last : List Char) : List Char :=
  ended.flatMap (fun l => l.1 ++ l.2.chars) ++ last

theorem manyLines_cons (line : List Char) (e : LineEnd) (ended : List (List Char × LineEnd))
    (last : List Char) :
    manyLines ((line, e) :: ended) last = line ++ e.chars ++ manyLines ended last := by
  simp [manyLines]

theorem blockBody?_blockText (body : List Char) : blockBody? (blockText body) = some body := by
  simp [blockBody?, blockText]

theorem blockText_of_blockBody? {text body : List Char} (h : blockBody? text = some body) :
    text = blockText body := by
  unfold blockBody? at h
  split at h
  · rename_i inner
    split at h
    · rename_i hend
      obtain rfl := Option.some.inj h
      rw [blockText, ← hend.2, List.take_append_drop]
    · cases h
  · cases h

theorem comment_cases (text : List Char) :
    (∃ body, text = '/' :: '/' :: body) ∨ (∃ body, text = blockText body) ∨
      ((∀ body, text ≠ '/' :: '/' :: body) ∧ ∀ body, text ≠ blockText body) := by
  by_cases hline : ∃ body, text = '/' :: '/' :: body
  · exact .inl hline
  · by_cases hblock : ∃ body, text = blockText body
    · exact .inr (.inl hblock)
    · exact .inr (.inr ⟨not_exists.mp hline, not_exists.mp hblock⟩)

theorem lineOf_line_iff {body line : List Char} :
    LineOf ('/' :: '/' :: body) line ↔ line = body := by
  constructor
  · intro h
    generalize htext : '/' :: '/' :: body = text at h
    cases h with
    | line => simpa using htext.symm
    | block => simp [blockText] at htext
    | bare hline => exact absurd htext.symm (hline body)
  · rintro rfl
    exact .line line

theorem lineOf_block_iff {body line : List Char} :
    LineOf (blockText body) line ↔ line ∈ cut '\n' body := by
  rw [cut_eq_splitOn]
  constructor
  · intro h
    generalize htext : blockText body = text at h
    cases h with
    | line => simp [blockText] at htext
    | @block inner _ hmem =>
      have hbody : body = inner :=
        List.append_cancel_right (List.cons.inj (List.cons.inj htext).2).2
      rwa [hbody]
    | bare _ hblock => exact absurd htext.symm (hblock body)
  · exact .block

theorem lineOf_bare_iff {text line : List Char} (hline : ∀ body, text ≠ '/' :: '/' :: body)
    (hblock : ∀ body, text ≠ blockText body) : LineOf text line ↔ line = text := by
  constructor
  · intro h
    cases h with
    | line => exact absurd rfl (hline line)
    | @block inner => exact absurd rfl (hblock inner)
    | bare => rfl
  · rintro rfl
    exact .bare hline hblock

/-- The lines of a comment that are not empty. -/
def keptLines (text : List Char) : List (List Char) := (commentLines text).filter (!·.isEmpty)

theorem keptLines_line (body : List Char) :
    ∃ line, keptLines ('/' :: '/' :: body) = [trimEnd line].filter (!·.isEmpty) ∧
      (body = line ∨ body = ' ' :: line) := by
  unfold keptLines commentLines
  split
  · rename_i line h
    exact ⟨line, rfl, .inr (by simpa using h)⟩
  · rename_i line _ h
    exact ⟨line, rfl, .inl (by simpa using h)⟩
  · rename_i h
    exact absurd rfl (h body)

theorem keptLines_block (body : List Char) :
    keptLines (blockText body) = ((cut '\n' body).map trim).filter (!·.isEmpty) := by
  rw [← filter_trim_lines]
  have h := blockBody?_blockText body
  rw [blockText] at h
  simp [keptLines, commentLines, blockText, h]

theorem keptLines_bare {text : List Char} (hline : ∀ body, text ≠ '/' :: '/' :: body)
    (hblock : ∀ body, text ≠ blockText body) :
    keptLines text = [trim text].filter (!·.isEmpty) := by
  unfold keptLines commentLines
  split
  · exact absurd rfl (hline _)
  · exact absurd rfl (hline _)
  · split
    · rename_i hbody
      exact absurd (blockText_of_blockBody? hbody) (hblock _)
    · rfl

theorem filter_nonempty_eq_nil_iff {ls : List (List Char)} :
    ls.filter (!·.isEmpty) = [] ↔ ∀ l ∈ ls, l = [] := by
  simp [List.filter_eq_nil_iff]

/-- A comment leaves nothing exactly if its lines are blank. -/
theorem keptLines_eq_nil_iff {text : List Char} :
    keptLines text = [] ↔ ∀ line, LineOf text line → ∀ c ∈ line, isBlank c = true := by
  rcases comment_cases text with ⟨body, rfl⟩ | ⟨body, rfl⟩ | ⟨hline, hblock⟩
  · obtain ⟨line, hkept, hbody⟩ := keptLines_line body
    rw [hkept, filter_nonempty_eq_nil_iff]
    simp only [List.mem_singleton, forall_eq, trimEnd_eq_nil_iff, lineOf_line_iff]
    rcases hbody with rfl | rfl
    · rfl
    · have hspace : isBlank ' ' = true := by decide
      simp [hspace]
  · rw [keptLines_block, filter_nonempty_eq_nil_iff]
    simp only [List.forall_mem_map, trim_eq_nil_iff, lineOf_block_iff]
  · rw [keptLines_bare hline hblock, filter_nonempty_eq_nil_iff]
    simp only [List.mem_singleton, forall_eq, trim_eq_nil_iff, lineOf_bare_iff hline hblock]

/-- What is left of a line was trimmed at its end. -/
theorem exists_trimEnd_of_mem {text line : List Char} (h : line ∈ keptLines text) :
    ∃ s, line = trimEnd s := by
  rcases comment_cases text with ⟨body, rfl⟩ | ⟨body, rfl⟩ | ⟨hline, hblock⟩
  · obtain ⟨rest, hkept, -⟩ := keptLines_line body
    rw [hkept] at h
    exact ⟨rest, List.mem_singleton.mp (List.mem_filter.mp h).1⟩
  · rw [keptLines_block] at h
    obtain ⟨piece, -, rfl⟩ := List.mem_map.mp (List.mem_filter.mp h).1
    exact ⟨trimStart piece, rfl⟩
  · rw [keptLines_bare hline hblock] at h
    exact ⟨trimStart text, List.mem_singleton.mp (List.mem_filter.mp h).1⟩

theorem newline_notMem_of_mem {text line : List Char} (htext : IsGoComment text)
    (h : line ∈ keptLines text) : '\n' ∉ line := by
  cases htext with
  | @line body hbody =>
    obtain ⟨rest, hkept, hrest⟩ := keptLines_line body
    rw [hkept] at h
    rw [List.mem_singleton.mp (List.mem_filter.mp h).1]
    intro hmem
    apply hbody
    rcases hrest with rfl | rfl
    · exact mem_of_mem_trimEnd hmem
    · exact List.mem_cons_of_mem _ (mem_of_mem_trimEnd hmem)
  | block body =>
    rw [keptLines_block] at h
    obtain ⟨piece, hpiece, rfl⟩ := List.mem_map.mp (List.mem_filter.mp h).1
    exact fun hmem => not_mem_of_mem_cut hpiece (mem_of_mem_trim hmem)

namespace CommentBlock

/-! ## Joining -/

theorem descriptionLines_eq_flatMap (comments : List String) :
    descriptionLines comments = comments.flatMap fun c => keptLines c.toList :=
  List.filter_flatMap

theorem descriptionLines_append (a b : List String) :
    descriptionLines (a ++ b) = descriptionLines a ++ descriptionLines b := by
  simp [descriptionLines]

theorem ne_nil_of_mem_descriptionLines {comments : List String} {line : List Char}
    (h : line ∈ descriptionLines comments) : line ≠ [] := by
  have hne := (List.mem_filter.mp h).2
  simpa using hne

theorem toList_describe (block : CommentBlock) :
    block.describe.toList = joined [' '] (descriptionLines block.comments) :=
  String.toList_ofList

theorem describe_congr {a b : CommentBlock}
    (h : descriptionLines a.comments = descriptionLines b.comments) : a.describe = b.describe := by
  rw [describe, describe, h]

theorem describe_eq_empty_iff_lines {block : CommentBlock} :
    block.describe = "" ↔ descriptionLines block.comments = [] := by
  rw [← @joined_eq_nil_iff [' '] _ fun p => ne_nil_of_mem_descriptionLines,
    ← toList_describe, String.toList_eq_nil_iff]

/-- The description of comments in two parts is that of the parts that have one, with a space in
    between. -/
theorem describe_append (a b c : List String) :
    describe ⟨a ++ b, c⟩ =
      " ".intercalate ([describe ⟨a, []⟩, describe ⟨b, c⟩].filter (· ≠ "")) := by
  have hlines : descriptionLines (comments ⟨a ++ b, c⟩) =
      descriptionLines (comments ⟨a, []⟩) ++ descriptionLines (comments ⟨b, c⟩) := by
    rw [← descriptionLines_append]
    simp [comments]
  by_cases ha : describe ⟨a, []⟩ = ""
  · have hab : describe ⟨a ++ b, c⟩ = describe ⟨b, c⟩ :=
      describe_congr (by rw [hlines, describe_eq_empty_iff_lines.mp ha, List.nil_append])
    by_cases hb : describe ⟨b, c⟩ = "" <;> simp [hab, ha, hb]
  · by_cases hb : describe ⟨b, c⟩ = ""
    · have hab : describe ⟨a ++ b, c⟩ = describe ⟨a, []⟩ :=
        describe_congr (by rw [hlines, describe_eq_empty_iff_lines.mp hb, List.append_nil])
      simp [hab, ha, hb]
    · apply String.toList_inj.mp
      rw [toList_describe, hlines, joined_append [' '] (mt describe_eq_empty_iff_lines.mpr ha)
        (mt describe_eq_empty_iff_lines.mpr hb), ← toList_describe, ← toList_describe]
      simp [ha, hb]

/-! ## Block comments -/

theorem descriptionLines_block (body : List Char) :
    descriptionLines [String.ofList (blockText body)] =
      ((cut '\n' body).map trim).filter (!·.isEmpty) := by
  rw [← keptLines_block, descriptionLines_eq_flatMap]
  simp

/-- What a line is ended by makes no difference. -/
theorem cut_manyLines {ended : List (List Char × LineEnd)} {last : List Char}
    (h : ∀ l ∈ ended, '\n' ∉ l.1) (hlast : '\n' ∉ last) :
    (cut '\n' (manyLines ended last)).map trim = (ended.map Prod.fst ++ [last]).map trim := by
  induction ended with
  | nil => simp [manyLines, cut_of_notMem hlast]
  | cons l ended ih =>
    obtain ⟨line, e⟩ := l
    have hline : '\n' ∉ line := h (line, e) List.mem_cons_self
    have hrest := ih fun l hl => h l (List.mem_cons_of_mem _ hl)
    rw [List.map_cons, List.cons_append, List.map_cons, ← hrest, manyLines_cons]
    cases e with
    | feed =>
      have hcut := cut_append hline (manyLines ended last)
      simpa [LineEnd.chars] using congrArg (List.map trim) hcut
    | returnAndFeed =>
      -- The return stays with its line, and is trimmed off with the blanks at the end.
      have hline' : '\n' ∉ line ++ ['\r'] := by simpa using hline
      have hcut := cut_append hline' (manyLines ended last)
      simpa [LineEnd.chars, trim_concat line (c := '\r') (by decide)] using
        congrArg (List.map trim) hcut

/-- A block comment of several lines counts as one block comment for each line. -/
theorem descriptionLines_manyLines {ended : List (List Char × LineEnd)} {last : List Char}
    (h : ∀ l ∈ ended, '\n' ∉ l.1) (hlast : '\n' ∉ last) :
    descriptionLines [String.ofList (blockText (manyLines ended last))] =
      descriptionLines
        ((ended.map Prod.fst ++ [last]).map fun l => String.ofList (blockText l)) := by
  have hlines : ∀ l ∈ ended.map Prod.fst ++ [last], '\n' ∉ l := by
    intro l hl
    rcases List.mem_append.mp hl with hl | hl
    · obtain ⟨e, he, rfl⟩ := List.mem_map.mp hl
      exact h e he
    · exact List.mem_singleton.mp hl ▸ hlast
  rw [descriptionLines_block, cut_manyLines h hlast]
  generalize ended.map Prod.fst ++ [last] = ls at hlines ⊢
  induction ls with
  | nil => rfl
  | cons l ls ih =>
    have hl : descriptionLines [String.ofList (blockText l)] = [trim l].filter (!·.isEmpty) := by
      rw [descriptionLines_block, cut_of_notMem (hlines l List.mem_cons_self), List.map_singleton]
    have hls := ih fun l' hl' => hlines l' (List.mem_cons_of_mem l hl')
    have happend := descriptionLines_append [String.ofList (blockText l)]
      (ls.map fun l => String.ofList (blockText l))
    rw [List.singleton_append] at happend
    rw [List.map_cons, List.map_cons, happend, hl, ← hls, ← List.filter_append]
    rfl

/-! ## Blank comments and the end -/

theorem describe_eq_empty_iff {block : CommentBlock} :
    block.describe = "" ↔ ∀ comment ∈ block.comments, ∀ line, LineOf comment.toList line →
      ∀ c ∈ line, isBlank c = true := by
  rw [describe_eq_empty_iff_lines, descriptionLines_eq_flatMap, List.flatMap_eq_nil_iff]
  simp only [keptLines_eq_nil_iff]

theorem newline_notMem_describe {block : CommentBlock}
    (h : ∀ comment ∈ block.comments, IsGoComment comment.toList) :
    '\n' ∉ block.describe.toList := by
  rw [toList_describe]
  intro hmem
  rcases mem_joined hmem with hmem | ⟨line, hline, hmem⟩
  · exact absurd hmem (by decide)
  · rw [descriptionLines_eq_flatMap] at hline
    obtain ⟨comment, hcomment, hline⟩ := List.mem_flatMap.mp hline
    exact newline_notMem_of_mem (h comment hcomment) hline hmem

theorem not_isBlank_of_getLast?_describe {block : CommentBlock} {c : Char}
    (h : c ∈ block.describe.toList.getLast?) : ¬ isBlank c = true := by
  rw [toList_describe] at h
  obtain ⟨line, hline, hlast⟩ := exists_getLast?_joined (fun p => ne_nil_of_mem_descriptionLines) h
  rw [descriptionLines_eq_flatMap] at hline
  obtain ⟨comment, -, hline⟩ := List.mem_flatMap.mp hline
  obtain ⟨s, rfl⟩ := exists_trimEnd_of_mem hline
  exact not_isBlank_of_getLast?_trimEnd hlast

/-! ## The laws together -/

/-- Descriptions compose: comments in two parts give the two descriptions with a space in between,
    a block comment of several lines gives what a block comment for each line would, a description
    is empty exactly if all lines of all comments are blank, and Go comments are described in one
    line that does not end in white space. -/
theorem describe_composes :
    (∀ a b c, describe ⟨a ++ b, c⟩ =
      " ".intercalate ([describe ⟨a, []⟩, describe ⟨b, c⟩].filter (· ≠ ""))) ∧
    (∀ (ended : List (List Char × LineEnd)) (last : List Char) (one many : CommentBlock)
      (before after : List String), (∀ l ∈ ended, '\n' ∉ l.1) → '\n' ∉ last →
      one.comments = before ++ [String.ofList (blockText (manyLines ended last))] ++ after →
      many.comments = before ++
        (ended.map Prod.fst ++ [last]).map (fun l => String.ofList (blockText l)) ++ after →
      one.describe = many.describe) ∧
    (∀ block, describe block = "" ↔ ∀ comment ∈ block.comments, ∀ line,
      LineOf comment.toList line → ∀ c ∈ line, isBlank c = true) ∧
    ∀ block : CommentBlock, (∀ comment ∈ block.comments, IsGoComment comment.toList) →
      '\n' ∉ block.describe.toList ∧ ∀ c ∈ block.describe.toList.getLast?, ¬ isBlank c = true := by
  refine ⟨describe_append, ?_, fun block => describe_eq_empty_iff, fun block h => ?_⟩
  · intro ended last one many before after hended hlast hone hmany
    apply describe_congr
    rw [hone, hmany]
    simp only [descriptionLines_append, descriptionLines_manyLines hended hlast]
  · exact ⟨newline_notMem_describe h, fun c => not_isBlank_of_getLast?_describe⟩

/-- A block comment with two kinds of line ends and an empty line, before a line comment. -/
theorem describe_composes_mixed :
    describe ⟨["/* A\r\n\n b */"], ["// c"]⟩ = describe ⟨["/* A*/", "/**/", "/* b */"], ["// c"]⟩ ∧
      '\n' ∉ (describe ⟨["/* A\r\n\n b */"], ["// c"]⟩).toList ∧
      describe ⟨["/* A\r\n\n b */"], ["// c"]⟩ = "A b c" := by
  obtain ⟨-, hlines, -, hgo⟩ := describe_composes
  have hcomment : "/* A\r\n\n b */".toList =
      blockText (manyLines [([' ', 'A'], .returnAndFeed), ([], .feed)] [' ', 'b', ' ']) := by decide
  refine ⟨?_, (hgo ⟨["/* A\r\n\n b */"], ["// c"]⟩ ?_).1, by decide⟩
  · exact hlines [([' ', 'A'], .returnAndFeed), ([], .feed)] [' ', 'b', ' '] _ _ [] ["// c"]
      (by decide) (by decide) (by decide) (by decide)
  · intro comment hmem
    rcases List.mem_pair.mp hmem with rfl | rfl
    · exact hcomment ▸ .block _
    · exact @IsGoComment.line [' ', 'c'] (by decide)

end CommentBlock

end CallSchema
