import CallSchema.Load
import CallSchema.Proofs.Syntax
import CallSchema.Proofs.Utf8
import Mathlib.Data.List.Forall2
import Mathlib.Data.List.Sort

/-!
What comes of loading a directory, by what it lists and not by the order of the list.

`Loads parse dir S r` tells the result `r` of loading a directory whose source files are those in
`S`, with one constructor for each way in which loading ends. Every "first" in it is by the bytes of
the names (`IsFirst`).

1. `loadWith_eq_iff`: loading a directory that lists no name twice gives `r` exactly if `r` is told.
   A file that is no text wins over every syntax error, also over one in an earlier file; a syntax
   error is a node for one anywhere in the tree of a file (`Go.Node.HasFault`), and what is reported
   is the line and the text of the first of them (`Go.Node.FirstFault`).
2. `loadWith_perm`: the order of the list is of no matter.
3. `units_without_tests`: without tests there are the units of all files, except those whose names
   are the names of tests.
-/

namespace CallSchema

open Text

/-! ## Lists in the order of their names -/

section Names

variable {α β ε : Type}

/-- The bytes of the first name come before those of the second. -/
def Ahead (s t : String) : Prop := utf8Bytes s < utf8Bytes t

/-- Of all that have the property, the one whose name comes first. -/
structure IsFirst (P : String × α → Prop) (a : String × α) : Prop where
  holds : P a
  least : ∀ b, P b → b = a ∨ Ahead a.1 b.1

theorem Ahead.asymm {s t : String} (h : Ahead s t) : ¬ Ahead t s := List.lt_asymm h

/-- Lists of the same elements in the order of their names are one list. -/
theorem eq_of_sorted {name : α → String} {as bs : List α} (ha : (as.map name).Pairwise Ahead)
    (hb : (bs.map name).Pairwise Ahead) (h : ∀ x, x ∈ as ↔ x ∈ bs) : as = bs := by
  rw [List.pairwise_map] at ha hb
  have : Std.Irrefl fun x y => Ahead (name x) (name y) := ⟨fun x h => h.asymm h⟩
  have : Std.Antisymm fun x y => Ahead (name x) (name y) := ⟨fun x y h h' => absurd h' h.asymm⟩
  exact ha.eq_of_mem_iff hb h

theorem IsFirst.unique {P : String × α → Prop} {a b : String × α} (ha : IsFirst P a)
    (hb : IsFirst P b) : a = b := by
  rcases hb.least a ha.holds with h | h
  · exact h
  · rcases ha.least b hb.holds with h' | h'
    · exact h'.symm
    · exact absurd h h'.asymm

/-- In a list ordered by name the one with none before it is the first. -/
theorem isFirst_of_append {P : String × α → Prop} {before after : List (String × α)}
    {a : String × α} (sorted : ((before ++ a :: after).map Prod.fst).Pairwise Ahead) (ha : P a)
    (hbefore : ∀ b ∈ before, ¬ P b) : IsFirst (fun b => b ∈ before ++ a :: after ∧ P b) a := by
  refine ⟨⟨List.mem_append_right _ List.mem_cons_self, ha⟩, ?_⟩
  intro b ⟨hmem, hb⟩
  rw [List.pairwise_map] at sorted
  rcases List.mem_append.mp hmem with hmem | hmem
  · exact absurd hb (hbefore b hmem)
  · rcases List.mem_cons.mp hmem with rfl | hmem
    · exact .inl rfl
    · exact .inr (List.rel_of_pairwise_cons (List.pairwise_append.mp sorted).2.1 hmem)

/-! ## Lists of computations that may fail -/

theorem mapM_eq_ok {f : α → Except ε β} {as : List α} {bs : List β} :
    as.mapM f = .ok bs ↔ List.Forall₂ (fun a b => f a = .ok b) as bs := by
  induction as generalizing bs with
  | nil =>
    rw [List.mapM_nil, List.forall₂_nil_left_iff]
    exact ⟨fun h => (Except.ok.inj h).symm, fun h => congrArg Except.ok h.symm⟩
  | cons a as ih =>
    rw [List.mapM_cons, bind_eq_ok, List.forall₂_cons_left_iff]
    constructor
    · intro h
      obtain ⟨b, hb, h⟩ := h
      obtain ⟨rest, hrest, h⟩ := bind_eq_ok.mp h
      exact ⟨b, rest, hb, ih.mp hrest, (Except.ok.inj h).symm⟩
    · intro h
      obtain ⟨b, rest, hb, hrest, rfl⟩ := h
      exact ⟨b, hb, bind_eq_ok.mpr ⟨rest, ih.mpr hrest, rfl⟩⟩

theorem succeeds_of_forall₂ {f : α → Except ε β} {as : List α} {bs : List β}
    (h : List.Forall₂ (fun a b => f a = .ok b) as bs) : ∀ a ∈ as, ∃ b, f a = .ok b := by
  induction h with
  | nil => exact fun a ha => absurd ha List.not_mem_nil
  | cons hb _ ih => exact List.forall_mem_cons.mpr ⟨⟨_, hb⟩, ih⟩

/-- The error of a failing list is that of an element with only good ones before it. -/
theorem exists_of_mapM_eq_error {f : α → Except ε β} {as : List α} {e : ε}
    (h : as.mapM f = .error e) : ∃ before a after, as = before ++ a :: after ∧ f a = .error e ∧
      ∀ b ∈ before, ∃ r, f b = .ok r := by
  induction as with
  | nil => cases h
  | cons a as ih =>
    rw [List.mapM_cons, bind_eq_error] at h
    rcases h with h | ⟨r, hr, h⟩
    · exact ⟨[], a, as, rfl, h, fun b hb => absurd hb List.not_mem_nil⟩
    · rcases bind_eq_error.mp h with h | ⟨rest, hrest, h⟩
      · obtain ⟨before, b, after, rfl, hb, hbefore⟩ := ih h
        exact ⟨a :: before, b, after, rfl, hb, List.forall_mem_cons.mpr ⟨⟨r, hr⟩, hbefore⟩⟩
      · cases h

/-- In a list ordered by name the error is that of the first name that fails. -/
theorem mapM_eq_error {f : String × α → Except ε β} {as : List (String × α)}
    (sorted : (as.map Prod.fst).Pairwise Ahead) {e : ε} : as.mapM f = .error e ↔
      ∃ a, IsFirst (fun a => a ∈ as ∧ ∃ e, f a = .error e) a ∧ f a = .error e := by
  -- The other direction needs this one as well: the error that there is must be that of the first.
  have fails : ∀ e, as.mapM f = .error e →
      ∃ a, IsFirst (fun a => a ∈ as ∧ ∃ e, f a = .error e) a ∧ f a = .error e := by
    intro e h
    obtain ⟨before, a, after, rfl, ha, hbefore⟩ := exists_of_mapM_eq_error h
    refine ⟨a, isFirst_of_append sorted ⟨e, ha⟩ fun b hb => ?_, ha⟩
    obtain ⟨r, hr⟩ := hbefore b hb
    simp [hr]
  constructor
  · exact fails e
  · intro ⟨a, hfirst, ha⟩
    cases hr : as.mapM f with
    | ok bs =>
      obtain ⟨b, hb⟩ := succeeds_of_forall₂ (mapM_eq_ok.mp hr) a hfirst.holds.1
      rw [ha] at hb
      cases hb
    | error e' =>
      obtain ⟨a', hfirst', ha'⟩ := fails e' hr
      obtain rfl := hfirst.unique hfirst'
      exact congrArg Except.error (Except.error.inj (ha'.symm.trans ha))

/-- The same for a computation that fails where `Q` holds, with the error `error`. -/
theorem mapM_eq_error_of {f : String × α → Except ε β} {Q : String × α → Prop}
    {error : String × α → ε} (hf : ∀ a e, f a = .error e ↔ Q a ∧ e = error a)
    {as : List (String × α)} (sorted : (as.map Prod.fst).Pairwise Ahead) {e : ε} :
    as.mapM f = .error e ↔ ∃ a, IsFirst (fun a => a ∈ as ∧ Q a) a ∧ e = error a := by
  rw [mapM_eq_error sorted]
  simp only [hf, exists_and_left, exists_eq, and_true]
  refine exists_congr fun a => ⟨?_, ?_⟩
  · intro ⟨hfirst, _, he⟩
    exact ⟨hfirst, he⟩
  · intro ⟨hfirst, he⟩
    exact ⟨hfirst, hfirst.holds.2, he⟩

end Names

/-! ## The source files of a directory -/

/-- The name of a file of tests. -/
def IsTestName (name : String) : Prop := "_test.go".toList <:+ name.toList

instance (name : String) : Decidable (IsTestName name) :=
  inferInstanceAs (Decidable ("_test.go".toList <:+ name.toList))

/-- Whether a file of that name belongs to the package, by the ends of its name. -/
structure Qualifies (includeTests : Bool) (name : String) : Prop where
  ends_in_go : ".go".toList <:+ name.toList
  not_underscore : ¬ "_".toList <+: name.toList
  not_dot : ¬ ".".toList <+: name.toList
  test : IsTestName name → includeTests = true

/-- A file, with its contents, that is listed and belongs to the package. -/
def IsSourceFile (includeTests : Bool) (listing : Listing) (file : String × ByteArray) : Prop :=
  (file.1, Entry.file file.2) ∈ listing ∧ Qualifies includeTests file.1

theorem head?_ne_some_iff {s : List Char} {c : Char} :
    (s.head? != some c) = true ↔ ¬ [c] <+: s := by
  cases s with
  | nil => simp
  | cons d s =>
    rw [List.head?_cons, bne_iff_ne, ne_eq, Option.some_inj, List.cons_prefix_cons,
      and_iff_left List.nil_prefix, eq_comm]

theorem isSource_iff {includeTests : Bool} {name : String} :
    isSource includeTests name = true ↔ Qualifies includeTests name := by
  simp only [isSource, Bool.and_eq_true, Bool.or_eq_true, Bool.not_eq_true', head?_ne_some_iff,
    ← Bool.not_eq_true, List.isSuffixOf_iff_suffix]
  constructor
  · intro ⟨⟨⟨hgo, hunderscore⟩, hdot⟩, htest⟩
    exact ⟨hgo, hunderscore, hdot, htest.neg_resolve_right⟩
  · intro h
    exact ⟨⟨⟨h.ends_in_go, h.not_underscore⟩, h.not_dot⟩, (Decidable.or_not_of_imp h.test)⟩

theorem fileOf?_eq_some {entry : String × Entry} {file : String × ByteArray} :
    fileOf? entry = some file ↔ entry = (file.1, Entry.file file.2) := by
  obtain ⟨name, contents⟩ := entry
  cases contents <;> simp [fileOf?, Prod.ext_iff]

theorem mem_sourceFiles {includeTests : Bool} {listing : Listing} {file : String × ByteArray} :
    file ∈ sourceFiles includeTests listing ↔ IsSourceFile includeTests listing file := by
  rw [sourceFiles, List.mem_mergeSort, List.mem_filter, List.mem_filterMap, isSource_iff,
    IsSourceFile]
  simp only [fileOf?_eq_some, exists_eq_right]

theorem nodup_map_files {listing : Listing} (h : (listing.map Prod.fst).Nodup) :
    ((listing.filterMap fileOf?).map Prod.fst).Nodup := by
  refine h.sublist ?_
  induction listing with
  | nil => exact List.Sublist.slnil
  | cons entry listing ih =>
    have ih := ih (List.nodup_cons.mp h).2
    cases hfile : fileOf? entry with
    | none =>
      rw [List.filterMap_cons_none hfile]
      exact ih.cons _
    | some file =>
      rw [List.filterMap_cons_some hfile, fileOf?_eq_some.mp hfile]
      exact ih.cons_cons _

/-- Sorted by names that are distinct, each name is strictly before the next. -/
theorem sorted_sourceFiles {includeTests : Bool} {listing : Listing}
    (h : (listing.map Prod.fst).Nodup) :
    ((sourceFiles includeTests listing).map Prod.fst).Pairwise Ahead := by
  have hle : (sourceFiles includeTests listing).Pairwise fun a b => a.1 ≤ b.1 := by
    refine (List.pairwise_mergeSort ?trans ?total _).imp of_decide_eq_true
    case trans =>
      intro a b c hab hbc
      exact decide_eq_true (String.le_trans (of_decide_eq_true hab) (of_decide_eq_true hbc))
    case total =>
      intro a b
      simpa only [Bool.or_eq_true, decide_eq_true_eq] using String.le_total a.1 b.1
  have hne : (sourceFiles includeTests listing).Pairwise fun a b => a.1 ≠ b.1 := by
    have hnodup := (nodup_map_files h).sublist
      ((List.filter_sublist (p := (isSource includeTests ·.1))).map Prod.fst)
    exact List.pairwise_map.mp
      ((((List.mergeSort_perm _ _).map Prod.fst).nodup_iff).mpr hnodup)
  refine List.pairwise_map.mpr ((hle.and hne).imp fun {a b} ⟨hle, hne⟩ => ?_)
  apply utf8Bytes_lt_iff.mpr
  exact String.not_le.mp fun hge => hne (String.le_antisymm hle hge)

/-! ## Reading and parsing -/

/-- Bytes that are a text in UTF-8. -/
def IsText (bytes : ByteArray) : Prop := ∃ text : String, text.toUTF8 = bytes

/-- A file with the text as its contents. -/
def encoded (source : String × String) : String × ByteArray := (source.1, source.2.toUTF8)

/-- The unit of a file that can be parsed, under the name of the file. -/
def unitOf (parse : String → Go.Node) (source : String × String) : SourceUnit :=
  SourceUnit.ofTree source.1 (parse source.2)

variable {parse : String → Go.Node} {dir : String}

theorem encoded_injective : Function.Injective encoded := by
  intro a b h
  obtain ⟨hname, htext⟩ := Prod.ext_iff.mp h
  have htext : some a.2 = some b.2 :=
    (fromUTF8?_eq_some.mpr rfl).symm.trans (fromUTF8?_eq_some.mpr htext)
  exact Prod.ext hname (Option.some.inj htext)

theorem fromUTF8?_eq_none {bytes : ByteArray} :
    String.fromUTF8? bytes = none ↔ ¬ IsText bytes := by
  rw [Option.eq_none_iff_forall_ne_some, IsText, not_exists]
  exact forall_congr' fun text => not_congr (fromUTF8?_eq_some.trans eq_comm)

theorem sourceText_eq_ok {file : String × ByteArray} {source : String × String} :
    sourceText dir file = .ok source ↔ file = encoded source := by
  rw [sourceText]
  split
  · rename_i text htext
    have hfile : file = encoded (file.1, text) := Prod.ext rfl (fromUTF8?_eq_some.mp htext)
    rw [Except.ok.injEq, ← encoded_injective.eq_iff, ← hfile]
  · rename_i hnone
    refine ⟨nofun, fun h => ?_⟩
    exact absurd ⟨source.2, (congrArg Prod.snd h).symm⟩ (fromUTF8?_eq_none.mp hnone)

theorem sourceText_eq_error {file : String × ByteArray} {e : LoadError} :
    sourceText dir file = .error e ↔
      ¬ IsText file.2 ∧ e = .unreadable (pathIn dir file.1) .notUtf8 := by
  rw [sourceText]
  split
  · rename_i text htext
    exact ⟨nofun, fun h => absurd ⟨text, (fromUTF8?_eq_some.mp htext).symm⟩ h.1⟩
  · rename_i hnone
    rw [Except.error.injEq, eq_comm, and_iff_right (fromUTF8?_eq_none.mp hnone)]

theorem sourceUnit_eq_ok {source : String × String} {unit : SourceUnit} :
    sourceUnit parse source = .ok unit ↔
      ¬ (parse source.2).HasFault ∧ unitOf parse source = unit := by
  rw [sourceUnit, ← Go.Node.firstFault?_eq_none_iff]
  cases (parse source.2).firstFault? <;> simp [unitOf]

theorem sourceUnit_eq_error {source : String × String} {e : LoadError} :
    sourceUnit parse source = .error e ↔
      ∃ fault, Go.Node.FirstFault fault (parse source.2) ∧
        e = .badSyntax source.1 (fault.firstLine + 1) fault.complaint := by
  simp only [sourceUnit, ← Go.Node.firstFault?_eq_some_iff]
  cases (parse source.2).firstFault? <;> simp [eq_comm]

/-- Reading gives the texts of the files in their order. -/
theorem mapM_sourceText_eq_ok {files : List (String × ByteArray)}
    {sources : List (String × String)} :
    files.mapM (sourceText dir) = .ok sources ↔ files = sources.map encoded := by
  rw [mapM_eq_ok]
  simp only [sourceText_eq_ok]
  rw [← List.forall₂_map_right_iff, List.forall₂_eq_eq_eq]

/-- Parsing gives the units of the files in their order. -/
theorem ofSourcesWith_eq_ok {sources : List (String × String)} {p : Package} :
    Package.ofSourcesWith parse sources = .ok p ↔
      (∀ source ∈ sources, ¬ (parse source.2).HasFault) ∧ sources.map (unitOf parse) = p.units := by
  have hunits : Package.ofSourcesWith parse sources = .ok p ↔
      sources.mapM (sourceUnit parse) = .ok p.units := by
    rw [Package.ofSourcesWith, bind_eq_ok]
    exact ⟨fun ⟨units, hunits, h⟩ => Except.ok.inj h ▸ hunits, fun h => ⟨p.units, h, rfl⟩⟩
  rw [hunits, mapM_eq_ok]
  simp only [sourceUnit_eq_ok]
  rw [List.forall₂_and_left, ← List.forall₂_map_left_iff, List.forall₂_eq_eq_eq]

theorem ofSourcesWith_eq_error {sources : List (String × String)} {e : LoadError} :
    Package.ofSourcesWith parse sources = .error e ↔
      sources.mapM (sourceUnit parse) = .error e := by
  rw [Package.ofSourcesWith, bind_eq_error]
  exact ⟨fun h => h.resolve_right nofun, .inl⟩

/-! ## The result by the source files -/

section Files

variable (parse dir) (S : String × ByteArray → Prop)

/-- The result of loading a directory with the given source files, for each way in which it ends. -/
inductive Loads : Except LoadError Package → Prop
  | noSources (absent : ∀ file, ¬ S file) : Loads (.error (.noSources dir))
  | unreadable {file : String × ByteArray}
      (first : IsFirst (fun file => S file ∧ ¬ IsText file.2) file) :
      Loads (.error (.unreadable (pathIn dir file.1) .notUtf8))
  | badSyntax {source : String × String} {fault : Go.Node}
      (texts : ∀ file, S file → IsText file.2)
      (first : IsFirst (fun source => S (encoded source) ∧ (parse source.2).HasFault) source)
      (place : Go.Node.FirstFault fault (parse source.2)) :
      Loads (.error (.badSyntax source.1 (fault.firstLine + 1) fault.complaint))
  | loaded {p : Package} (present : ∃ file, S file) (texts : ∀ file, S file → IsText file.2)
      (sound : ∀ source, S (encoded source) → ¬ (parse source.2).HasFault)
      (mem : ∀ unit, unit ∈ p.units ↔ ∃ source, S (encoded source) ∧ unitOf parse source = unit)
      (sorted : (p.units.map SourceUnit.path).Pairwise Ahead) : Loads (.ok p)

variable {parse dir} {S}

theorem Loads.units {p : Package} (h : Loads parse dir S (.ok p)) :
    (∀ unit, unit ∈ p.units ↔ ∃ source, S (encoded source) ∧ unitOf parse source = unit) ∧
      (p.units.map SourceUnit.path).Pairwise Ahead := by
  cases h with
  | loaded _ _ _ mem sorted => exact ⟨mem, sorted⟩

end Files

section Listing

variable {includeTests : Bool} {listing : Listing}

theorem loadWith_of_none (h : ∀ file, ¬ IsSourceFile includeTests listing file) :
    Package.loadWith parse dir listing includeTests = .error (.noSources dir) := by
  have hnil : sourceFiles includeTests listing = [] :=
    List.eq_nil_iff_forall_not_mem.mpr fun file hfile => h file (mem_sourceFiles.mp hfile)
  rw [Package.loadWith, hnil]

theorem loadWith_of_some (h : ∃ file, IsSourceFile includeTests listing file) :
    Package.loadWith parse dir listing includeTests =
      (sourceFiles includeTests listing).mapM (sourceText dir) >>= Package.ofSourcesWith parse := by
  obtain ⟨file, hfile⟩ := h
  rw [Package.loadWith]
  split
  · rename_i hnil
    rw [← mem_sourceFiles, hnil] at hfile
    exact absurd hfile List.not_mem_nil
  · rfl

/-- Reading ends at the first file that is no text. -/
theorem read_eq_error (hn : (listing.map Prod.fst).Nodup) {e : LoadError} :
    (sourceFiles includeTests listing).mapM (sourceText dir) = .error e ↔
      ∃ file, IsFirst (fun file => IsSourceFile includeTests listing file ∧ ¬ IsText file.2) file ∧
        e = .unreadable (pathIn dir file.1) .notUtf8 := by
  rw [mapM_eq_error_of (fun _ _ => sourceText_eq_error) (sorted_sourceFiles hn)]
  simp only [mem_sourceFiles]

/-- The sources are what the source files hold, in the order of the names. -/
structure Reads (includeTests : Bool) (listing : Listing) (sources : List (String × String)) :
    Prop where
  mem : ∀ source, source ∈ sources ↔ IsSourceFile includeTests listing (encoded source)
  sorted : (sources.map Prod.fst).Pairwise Ahead
  texts : ∀ file, IsSourceFile includeTests listing file → IsText file.2

theorem reads_of_ok (hn : (listing.map Prod.fst).Nodup) {sources : List (String × String)}
    (h : (sourceFiles includeTests listing).mapM (sourceText dir) = .ok sources) :
    Reads includeTests listing sources := by
  have hfiles := mapM_sourceText_eq_ok.mp h
  have hsorted : ((sourceFiles includeTests listing).map Prod.fst).Pairwise Ahead :=
    sorted_sourceFiles hn
  refine ⟨fun source => ?_, ?_, fun file hfile => ?_⟩
  · rw [← mem_sourceFiles, hfiles, List.mem_map_of_injective encoded_injective]
  · rw [hfiles, List.map_map] at hsorted
    exact hsorted
  · rw [← mem_sourceFiles, hfiles] at hfile
    obtain ⟨source, -, rfl⟩ := List.mem_map.mp hfile
    exact ⟨source.2, rfl⟩

/-- Parsing what was read ends at the first text with a fault. -/
theorem Reads.parse_eq_error {sources : List (String × String)}
    (h : Reads includeTests listing sources) {e : LoadError} :
    Package.ofSourcesWith parse sources = .error e ↔
      ∃ source, IsFirst (fun source => IsSourceFile includeTests listing (encoded source) ∧
        (parse source.2).HasFault) source ∧
        ∃ fault, Go.Node.FirstFault fault (parse source.2) ∧
          e = .badSyntax source.1 (fault.firstLine + 1) fault.complaint := by
  have hfails (source : String × String) :
      (∃ e, sourceUnit parse source = .error e) ↔ (parse source.2).HasFault := by
    simp only [sourceUnit_eq_error, Go.Node.hasFault_iff_exists_firstFault]
    exact ⟨fun ⟨_, fault, hfault, _⟩ => ⟨fault, hfault⟩, fun ⟨fault, hfault⟩ =>
      ⟨_, fault, hfault, rfl⟩⟩
  rw [ofSourcesWith_eq_error, mapM_eq_error h.sorted]
  simp only [hfails, h.mem]
  exact exists_congr fun source => and_congr_right fun _ => sourceUnit_eq_error

theorem Reads.mem_units {sources : List (String × String)} (h : Reads includeTests listing sources)
    (unit : SourceUnit) : unit ∈ sources.map (unitOf parse) ↔
      ∃ source, IsSourceFile includeTests listing (encoded source) ∧
        unitOf parse source = unit := by
  rw [List.mem_map]
  simp only [h.mem]

theorem Reads.sorted_units {sources : List (String × String)}
    (h : Reads includeTests listing sources) :
    ((sources.map (unitOf parse)).map SourceUnit.path).Pairwise Ahead := by
  rw [List.map_map]
  exact h.sorted

/-- Loading gives a result that is told. -/
theorem loads_loadWith (hn : (listing.map Prod.fst).Nodup) :
    Loads parse dir (IsSourceFile includeTests listing)
      (Package.loadWith parse dir listing includeTests) := by
  by_cases hsome : ∃ file, IsSourceFile includeTests listing file
  · rw [loadWith_of_some hsome]
    cases hread : (sourceFiles includeTests listing).mapM (sourceText dir) with
    | error e =>
      obtain ⟨file, hfirst, rfl⟩ := (read_eq_error hn).mp hread
      exact .unreadable hfirst
    | ok sources =>
      have hreads := reads_of_ok hn hread
      show Loads parse dir _ (Package.ofSourcesWith parse sources)
      cases hparse : Package.ofSourcesWith parse sources with
      | error e =>
        obtain ⟨source, hfirst, fault, hfault, rfl⟩ := hreads.parse_eq_error.mp hparse
        exact .badSyntax hreads.texts hfirst hfault
      | ok p =>
        obtain ⟨hsound, hunits⟩ := ofSourcesWith_eq_ok.mp hparse
        refine .loaded hsome hreads.texts ?_ ?_ ?_
        · exact fun source hsource => hsound source ((hreads.mem source).mpr hsource)
        · exact hunits ▸ hreads.mem_units
        · exact hunits ▸ hreads.sorted_units
  · rw [not_exists] at hsome
    rw [loadWith_of_none hsome]
    exact .noSources hsome

theorem exists_reads (hn : (listing.map Prod.fst).Nodup)
    (texts : ∀ file, IsSourceFile includeTests listing file → IsText file.2) :
    ∃ sources, (sourceFiles includeTests listing).mapM (sourceText dir) = .ok sources := by
  cases hread : (sourceFiles includeTests listing).mapM (sourceText dir) with
  | ok sources => exact ⟨sources, rfl⟩
  | error e =>
    obtain ⟨file, hfirst, -⟩ := (read_eq_error hn).mp hread
    exact absurd (texts file hfirst.holds.1) hfirst.holds.2

/-- What is told is the result of loading. -/
theorem loadWith_of_loads (hn : (listing.map Prod.fst).Nodup) {r : Except LoadError Package}
    (h : Loads parse dir (IsSourceFile includeTests listing) r) :
    Package.loadWith parse dir listing includeTests = r := by
  cases h with
  | noSources absent => exact loadWith_of_none absent
  | unreadable first =>
    rw [loadWith_of_some ⟨_, first.holds.1⟩, bind_eq_error]
    exact .inl ((read_eq_error hn).mpr ⟨_, first, rfl⟩)
  | badSyntax texts first place =>
    obtain ⟨sources, hread⟩ := exists_reads hn texts
    rw [loadWith_of_some ⟨_, first.holds.1⟩, bind_eq_error]
    refine .inr ⟨sources, hread, ?_⟩
    exact (reads_of_ok hn hread).parse_eq_error.mpr ⟨_, first, _, place, rfl⟩
  | loaded present texts sound mem sorted =>
    obtain ⟨sources, hread⟩ := exists_reads hn texts
    have hreads := reads_of_ok hn hread
    rw [loadWith_of_some present, bind_eq_ok]
    refine ⟨sources, hread, ofSourcesWith_eq_ok.mpr ⟨?_, ?_⟩⟩
    · exact fun source hsource => sound source ((hreads.mem source).mp hsource)
    · exact eq_of_sorted hreads.sorted_units sorted fun unit =>
        (hreads.mem_units unit).trans (mem unit).symm

theorem loadWith_eq_iff (hn : (listing.map Prod.fst).Nodup) {r : Except LoadError Package} :
    Package.loadWith parse dir listing includeTests = r ↔
      Loads parse dir (IsSourceFile includeTests listing) r :=
  ⟨fun h => h ▸ loads_loadWith hn, loadWith_of_loads hn⟩

theorem loadWith_perm (hn : (listing.map Prod.fst).Nodup) {other : Listing}
    (h : other.Perm listing) : Package.loadWith parse dir other includeTests =
      Package.loadWith parse dir listing includeTests := by
  have hfiles : IsSourceFile includeTests other = IsSourceFile includeTests listing := by
    funext file
    rw [IsSourceFile, IsSourceFile, h.mem_iff]
  have hother : (other.map Prod.fst).Nodup := (h.map Prod.fst).nodup_iff.mpr hn
  rw [loadWith_eq_iff hother, hfiles]
  exact loads_loadWith hn

theorem qualifies_without_tests {name : String} :
    Qualifies false name ↔ Qualifies true name ∧ ¬ IsTestName name := by
  constructor
  · intro h
    exact ⟨⟨h.ends_in_go, h.not_underscore, h.not_dot, fun _ => rfl⟩, fun ht => nomatch h.test ht⟩
  · intro ⟨h, hname⟩
    exact ⟨h.ends_in_go, h.not_underscore, h.not_dot, fun ht => absurd ht hname⟩

theorem isSourceFile_without_tests {file : String × ByteArray} :
    IsSourceFile false listing file ↔ IsSourceFile true listing file ∧ ¬ IsTestName file.1 := by
  rw [IsSourceFile, IsSourceFile, qualifies_without_tests, and_assoc]

/-- Without tests a package has the units that it has with them, except those of tests. -/
theorem units_without_tests (hn : (listing.map Prod.fst).Nodup) {all fewer : Package}
    (hall : Package.loadWith parse dir listing true = .ok all)
    (hfewer : Package.loadWith parse dir listing false = .ok fewer) :
    fewer.units = all.units.filter fun unit => ¬ IsTestName unit.path := by
  obtain ⟨mem, sorted⟩ := ((loadWith_eq_iff hn).mp hall).units
  obtain ⟨mem', sorted'⟩ := ((loadWith_eq_iff hn).mp hfewer).units
  refine eq_of_sorted sorted' (sorted.sublist (List.filter_sublist.map _)) fun unit => ?_
  rw [mem', List.mem_filter, mem, decide_eq_true_iff]
  constructor
  · intro h
    obtain ⟨source, hsource, rfl⟩ := h
    obtain ⟨hlisted, hname⟩ := isSourceFile_without_tests.mp hsource
    exact ⟨⟨source, hlisted, rfl⟩, hname⟩
  · intro h
    obtain ⟨⟨source, hsource, rfl⟩, hname⟩ := h
    exact ⟨source, isSourceFile_without_tests.mpr ⟨hsource, hname⟩, rfl⟩

end Listing

/-- Loading a directory, whatever parses its files: what comes of it, that the order of its list is
    of no matter, and what becomes of the tests. -/
theorem Package.loadWith_of_files (parse : String → Go.Node) (dir : String) {listing : Listing}
    (hn : (listing.map Prod.fst).Nodup) :
    (∀ includeTests r, Package.loadWith parse dir listing includeTests = r ↔
      Loads parse dir (IsSourceFile includeTests listing) r) ∧
    (∀ includeTests other, other.Perm listing →
      Package.loadWith parse dir other includeTests =
        Package.loadWith parse dir listing includeTests) ∧
    ∀ all fewer, Package.loadWith parse dir listing true = .ok all →
      Package.loadWith parse dir listing false = .ok fewer →
      fewer.units = all.units.filter fun unit => ¬ IsTestName unit.path := by
  refine ⟨?_, ?_, ?_⟩
  · intro includeTests r
    exact loadWith_eq_iff hn
  · intro includeTests other hperm
    exact loadWith_perm hn hperm
  · intro all fewer hall hfewer
    exact units_without_tests hn hall hfewer

/-- A directory whose first source file is no Go and whose second one is no text. -/
def brokenListing : Listing :=
  [("c.go", .directory []), ("b.go", .file ⟨#[0xff]⟩), ("a.go", .file "package".toUTF8),
    ("_.go", .file ⟨#[0xff]⟩)]

theorem Package.loadWith_of_files_broken :
    (brokenListing.map Prod.fst).Nodup ∧
    ∀ other, other.Perm brokenListing →
      Package.load "p" other true = .error (.unreadable "p/b.go" .notUtf8) := by
  have hn : (brokenListing.map Prod.fst).Nodup := by decide
  obtain ⟨hresult, hperm, -⟩ := Package.loadWith_of_files Go.parse "p" hn
  refine ⟨hn, fun other hother => (hperm true other hother).trans ((hresult true _).mpr ?_)⟩
  have hfirst : IsFirst (fun file => IsSourceFile true brokenListing file ∧ ¬ IsText file.2)
      ("b.go", ⟨#[0xff]⟩) := by
    refine ⟨⟨⟨by simp [brokenListing], isSource_iff.mp (by decide)⟩,
      fromUTF8?_eq_none.mp (by decide)⟩, ?_⟩
    intro file ⟨⟨hlisted, hname⟩, htext⟩
    simp only [brokenListing, List.mem_cons, Prod.mk.injEq, Entry.file.injEq, List.not_mem_nil,
      or_false, reduceCtorEq, and_false, false_or] at hlisted
    rcases hlisted with hb | ha | hblank
    · exact .inl (Prod.ext hb.1 hb.2)
    · exact absurd ⟨_, ha.2.symm⟩ htext
    · rw [hblank.1, ← isSource_iff] at hname
      exact absurd hname (by decide)
  exact .unreadable hfirst

end CallSchema
