import CallSchema.Proofs.Units
import Mathlib.Data.List.Forall2
import Mathlib.Data.List.Sort
import Mathlib.Order.Bounds.Basic

/-!
Which declaration a name stands for.

All declarations of a package stand in one list, unit by unit (`declarations`), and the place of a
declaration is its number in that list. Functions and types have name spaces of their own, and both
lookups are told here by places: not by the order in which a lookup happens to go.

1. `exists_places`: what a lookup selects stands at a list of ascending places, one for each.
2. `typeDecl?_eq_some_iff`, `getElem?_typeIndex`: a type name stands for the type declaration at the
   least place of the name, also in an index that is filled in order and never overwritten.
3. `findFunction_eq_iff`: the outcome of a function lookup is the one that `Finds` gives, in which
   there is one case for no place, one for the least of all places or the only one, and one for
   several places where one is wanted.
4. `lookups_take_first`: all of it together, and that neither lookup sees the declarations of the
   other sort.
-/

namespace CallSchema

/-! ## Places -/

/-- All declarations in order: unit by unit, and in each unit as they stand. Each has the path of
    its unit. -/
def declarations (units : List SourceUnit) : List (String × Decl) :=
  units.flatMap fun unit => unit.decls.map (unit.path, ·)

/-- At the place stands the declaration of a function of the name, in a unit with the path. -/
def FunctionAt (units : List SourceUnit) (name : String) (place : Nat) (path : String)
    (f : FuncDecl) : Prop :=
  (declarations units)[place]? = some (path, .func f) ∧ f.name = name

/-- At the place stands the declaration of a type of the name. -/
def TypeAt (units : List SourceUnit) (name : String) (place : Nat) (d : TypeDecl) : Prop :=
  (∃ path, (declarations units)[place]? = some (path, .type d)) ∧ d.name = name

/-- The places at which a function of the name is declared. -/
def functionPlaces (units : List SourceUnit) (name : String) : Set Nat :=
  { place | ∃ path f, FunctionAt units name place path f }

/-- The places at which a type of the name is declared. -/
def typePlaces (units : List SourceUnit) (name : String) : Set Nat :=
  { place | ∃ d, TypeAt units name place d }

/-- What is selected from a list stands at ascending places, one for each, and nothing else that
    could be selected stands anywhere. -/
theorem exists_places {α β : Type} (select : α → Option β) (l : List α) :
    ∃ places : List Nat, places.Pairwise (· < ·) ∧
      (∀ n, n ∈ places ↔ (l[n]?.bind select).isSome) ∧
      List.Forall₂ (fun n y => l[n]?.bind select = some y) places (l.filterMap select) := by
  induction l with
  | nil => exact ⟨[], .nil, by simp, .nil⟩
  | cons x l ih =>
    obtain ⟨places, hsorted, hmem, hrel⟩ := ih
    -- The places in the rest move on by one, and zero comes before them if `x` is selected.
    have hmoved : (places.map (· + 1)).Pairwise (· < ·) :=
      List.pairwise_map.mpr (hsorted.imp fun h => Nat.add_lt_add_right h 1)
    have hrel' : List.Forall₂ (fun n y => (x :: l)[n]?.bind select = some y)
        (places.map (· + 1)) (l.filterMap select) :=
      List.forall₂_map_left_iff.mpr (hrel.imp fun n y h => by simpa using h)
    cases hx : select x with
    | none =>
      refine ⟨places.map (· + 1), hmoved, fun n => ?_, ?_⟩
      · cases n with
        | zero => simp [hx]
        | succ n => simp [hmem]
      · rwa [List.filterMap_cons_none hx]
    | some y =>
      refine ⟨0 :: places.map (· + 1), .cons (by simp) hmoved, fun n => ?_, ?_⟩
      · cases n with
        | zero => simp [hx]
        | succ n => simp [hmem]
      · rw [List.filterMap_cons_some hx]
        exact .cons (by simp [hx]) hrel'

/-! ## What the lookups select -/

/-- The function of a declaration, if it has the name. -/
def selectFunction (name : String) : String × Decl → Option (String × FuncDecl) :=
  fun (path, decl) => (decl.func?.filter (·.name == name)).map (path, ·)

/-- The type of a declaration, if it has the name. -/
def selectType (name : String) : String × Decl → Option TypeDecl :=
  fun (_, decl) => decl.type?.filter (·.name == name)

theorem functionsNamed_eq (units : List SourceUnit) (name : String) :
    functionsNamed units name = (declarations units).filterMap (selectFunction name) := by
  rw [functionsNamed, declarations, List.filterMap_flatMap]
  congr 1
  funext unit
  rw [SourceUnit.functions, List.filterMap_map, List.filter_filterMap, List.map_filterMap]
  rfl

theorem typesNamed_eq (units : List SourceUnit) (name : String) :
    typesNamed units name = (declarations units).filterMap (selectType name) := by
  rw [typesNamed, declarations, List.filterMap_flatMap]
  congr 1
  funext unit
  rw [SourceUnit.types, List.filterMap_map, List.filter_filterMap]
  rfl

theorem bind_selectFunction {units : List SourceUnit} {name : String} {n : Nat}
    {x : String × FuncDecl} :
    (declarations units)[n]?.bind (selectFunction name) = some x ↔
      FunctionAt units name n x.1 x.2 := by
  simp only [FunctionAt, Option.bind_eq_some_iff, selectFunction, Option.map_eq_some_iff,
    Option.filter_eq_some_iff, beq_iff_eq]
  constructor
  · rintro ⟨⟨path, decl⟩, hat, f, ⟨hf, hname⟩, rfl⟩
    cases decl with
    | func g =>
      obtain rfl := Option.some.inj hf
      exact ⟨hat, hname⟩
    | type d => exact absurd hf nofun
  · rintro ⟨hat, hname⟩
    exact ⟨(x.1, .func x.2), hat, x.2, ⟨rfl, hname⟩, rfl⟩

theorem bind_selectType {units : List SourceUnit} {name : String} {n : Nat} {d : TypeDecl} :
    (declarations units)[n]?.bind (selectType name) = some d ↔ TypeAt units name n d := by
  simp only [TypeAt, Option.bind_eq_some_iff, selectType, Option.filter_eq_some_iff, beq_iff_eq]
  constructor
  · rintro ⟨⟨path, decl⟩, hat, hd, hname⟩
    cases decl with
    | func f => exact absurd hd nofun
    | type d' =>
      obtain rfl := Option.some.inj hd
      exact ⟨⟨path, hat⟩, hname⟩
  · rintro ⟨⟨path, hat⟩, hname⟩
    exact ⟨(path, .type d), hat, rfl, hname⟩

/-- The functions of a name stand at ascending places, which are all of the name. -/
theorem exists_functionPlaces (units : List SourceUnit) (name : String) :
    ∃ places : List Nat, places.Pairwise (· < ·) ∧
      (∀ n, n ∈ places ↔ n ∈ functionPlaces units name) ∧
      List.Forall₂ (fun n x => FunctionAt units name n x.1 x.2) places
        (functionsNamed units name) := by
  obtain ⟨places, hsorted, hmem, hrel⟩ :=
    exists_places (selectFunction name) (declarations units)
  refine ⟨places, hsorted, fun n => ?_, ?_⟩
  · simp only [hmem, Option.isSome_iff_exists, bind_selectFunction, functionPlaces,
      Set.mem_ofPred_eq, Prod.exists]
  · rw [functionsNamed_eq]
    exact hrel.imp fun n x => bind_selectFunction.mp

/-- The types of a name stand at ascending places, which are all of the name. -/
theorem exists_typePlaces (units : List SourceUnit) (name : String) :
    ∃ places : List Nat, places.Pairwise (· < ·) ∧
      (∀ n, n ∈ places ↔ n ∈ typePlaces units name) ∧
      List.Forall₂ (TypeAt units name) places (typesNamed units name) := by
  obtain ⟨places, hsorted, hmem, hrel⟩ := exists_places (selectType name) (declarations units)
  refine ⟨places, hsorted, fun n => ?_, ?_⟩
  · simp only [hmem, Option.isSome_iff_exists, bind_selectType, typePlaces, Set.mem_ofPred_eq]
  · rw [typesNamed_eq]
    exact hrel.imp fun n d => bind_selectType.mp

/-- The first of ascending places is the least. -/
theorem isLeast_of_pairwise {places : List Nat} {first : Nat} {all : Set Nat}
    (hsorted : (first :: places).Pairwise (· < ·)) (hmem : ∀ n, n ∈ first :: places ↔ n ∈ all) :
    IsLeast all first := by
  refine ⟨(hmem first).mp List.mem_cons_self, fun n hn => ?_⟩
  rcases List.mem_cons.mp ((hmem n).mpr hn) with rfl | hn
  · exact Nat.le_refl n
  · exact Nat.le_of_lt (List.rel_of_pairwise_cons hsorted hn)

theorem eq_empty_of_nil {all : Set Nat} (hmem : ∀ n, n ∈ ([] : List Nat) ↔ n ∈ all) : all = ∅ :=
  Set.eq_empty_of_forall_notMem fun n hn => List.not_mem_nil ((hmem n).mpr hn)

theorem FunctionAt.unique {units : List SourceUnit} {name path path' : String} {n : Nat}
    {f f' : FuncDecl} (h : FunctionAt units name n path f) (h' : FunctionAt units name n path' f') :
    path = path' ∧ f = f' := by
  obtain ⟨hpath, hdecl⟩ := Prod.mk.inj (Option.some.inj (h.1.symm.trans h'.1))
  exact ⟨hpath, Decl.func.inj hdecl⟩

theorem TypeAt.unique {units : List SourceUnit} {name : String} {n : Nat} {d d' : TypeDecl}
    (h : TypeAt units name n d) (h' : TypeAt units name n d') : d = d' := by
  obtain ⟨⟨path, hat⟩, -⟩ := h
  obtain ⟨⟨path', hat'⟩, -⟩ := h'
  exact Decl.type.inj (Prod.mk.inj (Option.some.inj (hat.symm.trans hat'))).2

/-! ## Types -/

/-- A type name stands for the type at its least place. -/
theorem typeDecl?_eq_some_iff {units : List SourceUnit} {name : String} {d : TypeDecl} :
    Package.typeDecl? ⟨units⟩ name = some d ↔
      ∃ n, IsLeast (typePlaces units name) n ∧ TypeAt units name n d := by
  obtain ⟨places, hsorted, hmem, hrel⟩ := exists_typePlaces units name
  rw [Package.typeDecl?_eq_head?]
  generalize typesNamed units name = found at hrel
  cases hrel with
  | nil =>
    rw [eq_empty_of_nil hmem]
    exact ⟨nofun, fun ⟨n, hleast, _⟩ => absurd hleast.1 (Set.notMem_empty n)⟩
  | @cons first d' _ _ hat _ =>
    have hfirst := isLeast_of_pairwise hsorted hmem
    constructor
    · intro h
      obtain rfl := Option.some.inj h
      exact ⟨first, hfirst, hat⟩
    · rintro ⟨n, hleast, hd⟩
      obtain rfl := hleast.unique hfirst
      exact congrArg some (hat.unique hd)

theorem typeDecl?_eq_none_iff {units : List SourceUnit} {name : String} :
    Package.typeDecl? ⟨units⟩ name = none ↔ typePlaces units name = ∅ := by
  obtain ⟨places, hsorted, hmem, hrel⟩ := exists_typePlaces units name
  rw [Package.typeDecl?_eq_head?]
  generalize typesNamed units name = found at hrel
  cases hrel with
  | nil => exact iff_of_true rfl (eq_empty_of_nil hmem)
  | cons _ _ =>
    exact iff_of_false nofun (isLeast_of_pairwise hsorted hmem).nonempty.ne_empty

/-- The types by name in an index that is filled in order, where a name keeps its first type. -/
def typeIndex (units : List SourceUnit) : Std.HashMap String TypeDecl :=
  (units.flatMap SourceUnit.types).foldl (fun index d => index.insertIfNew d.name d) ∅

theorem getElem?_foldl_insertIfNew (index : Std.HashMap String TypeDecl) (ds : List TypeDecl)
    (name : String) :
    (ds.foldl (fun index d => index.insertIfNew d.name d) index)[name]? =
      index[name]?.or (ds.find? (·.name == name)) := by
  induction ds generalizing index with
  | nil => simp
  | cons d ds ih =>
    rw [List.foldl_cons, ih, Std.HashMap.getElem?_insertIfNew, List.find?_cons]
    cases hname : d.name == name with
    | false => simp
    | true =>
      obtain rfl := beq_iff_eq.mp hname
      cases hold : index[d.name]? with
      | none => simp [Std.HashMap.mem_iff_isSome_getElem?, hold]
      | some old => simp [Std.HashMap.mem_iff_isSome_getElem?, hold]

/-- The index has the types that the names stand for. -/
theorem getElem?_typeIndex (units : List SourceUnit) (name : String) :
    (typeIndex units)[name]? = Package.typeDecl? ⟨units⟩ name := by
  rw [typeIndex, getElem?_foldl_insertIfNew, Std.HashMap.getElem?_empty, Option.none_or]
  rfl

/-! ## Functions -/

/-- The outcome of a function lookup. -/
inductive Finds (units : List SourceUnit) (name : String) :
    DuplicatePolicy → Except SchemaError FuncDecl → Prop
  /-- The name is declared nowhere. -/
  | notFound {policy : DuplicatePolicy} (nowhere : functionPlaces units name = ∅) :
      Finds units name policy (.error (.functionNotFound name))
  /-- The first declaration counts. -/
  | first {n : Nat} {path : String} {f : FuncDecl} (least : IsLeast (functionPlaces units name) n)
      (isAt : FunctionAt units name n path f) : Finds units name .first (.ok f)
  /-- There is one declaration only. -/
  | only {n : Nat} {path : String} {f : FuncDecl} (once : functionPlaces units name = {n})
      (isAt : FunctionAt units name n path f) : Finds units name .error (.ok f)
  /-- There are several declarations where one is wanted: all are named, each once, in order. -/
  | ambiguous {places : List Nat} {locations : List (String × Nat)}
      (several : 2 ≤ places.length) (ascending : places.Pairwise (· < ·))
      (all : ∀ n, n ∈ places ↔ n ∈ functionPlaces units name)
      (named : List.Forall₂ (fun n location => ∃ path f, FunctionAt units name n path f ∧
        location = (path, f.line)) places locations) :
      Finds units name .error (.error (.ambiguousFunction name locations))

variable {units : List SourceUnit} {name : String} {policy : DuplicatePolicy}

theorem findFunction_finds (units : List SourceUnit) (name : String) (policy : DuplicatePolicy) :
    Finds units name policy (findFunction units name policy) := by
  obtain ⟨places, hsorted, hmem, hrel⟩ := exists_functionPlaces units name
  unfold findFunction
  generalize functionsNamed units name = found at hrel
  cases hrel with
  | nil => exact .notFound (eq_empty_of_nil hmem)
  | cons hat hrest =>
    have hfirst := isLeast_of_pairwise hsorted hmem
    cases policy with
    | first => cases hrest <;> exact .first hfirst hat
    | error =>
      cases hrest with
      | nil => exact .only (Set.ext fun n => (hmem n).symm.trans List.mem_singleton) hat
      | cons hat' hrest =>
        have hall : List.Forall₂ (fun n (x : String × FuncDecl) =>
            FunctionAt units name n x.1 x.2) _ _ := .cons hat (.cons hat' hrest)
        refine .ambiguous (by simp) hsorted hmem (List.forall₂_map_right_iff.mpr ?_)
        exact hall.imp fun n x h => ⟨x.1, x.2, h, rfl⟩

/-- What the places of a function say of its locations. -/
theorem locations_eq {places : List Nat} {locations : List (String × Nat)}
    {found : List (String × FuncDecl)}
    (hrel : List.Forall₂ (fun n x => FunctionAt units name n x.1 x.2) places found)
    (hnamed : List.Forall₂ (fun n location => ∃ path f, FunctionAt units name n path f ∧
      location = (path, f.line)) places locations) :
    locations = found.map fun (path, f) => (path, f.line) := by
  induction hrel generalizing locations with
  | nil =>
    cases hnamed
    rfl
  | cons hat _ ih =>
    cases hnamed with
    | cons hlocation hrest =>
      obtain ⟨path, f, hat', rfl⟩ := hlocation
      obtain ⟨rfl, rfl⟩ := hat.unique hat'
      rw [List.map_cons, ih hrest]

theorem findFunction_of_finds {r : Except SchemaError FuncDecl} (h : Finds units name policy r) :
    findFunction units name policy = r := by
  obtain ⟨places, hsorted, hmem, hrel⟩ := exists_functionPlaces units name
  unfold findFunction
  generalize functionsNamed units name = found at hrel
  cases h with
  | notFound nowhere =>
    obtain rfl : places = [] := List.eq_nil_iff_forall_not_mem.mpr fun n hn =>
      Set.notMem_empty n (nowhere ▸ (hmem n).mp hn)
    cases hrel
    rfl
  | first least isAt =>
    cases hrel with
    | nil => exact absurd (eq_empty_of_nil hmem) least.nonempty.ne_empty
    | cons hat hrest =>
      obtain rfl := least.unique (isLeast_of_pairwise hsorted hmem)
      obtain ⟨-, rfl⟩ := isAt.unique hat
      cases hrest <;> rfl
  | @only n path f once isAt =>
    obtain rfl : places = [n] := hsorted.eq_of_mem_iff (List.pairwise_singleton _ n) fun m => by
      rw [hmem, once, Set.mem_singleton_iff, List.mem_singleton]
    cases hrel with
    | cons hat hrest =>
      cases hrest
      rw [(isAt.unique hat).2]
  | ambiguous several ascending all named =>
    obtain rfl := hsorted.eq_of_mem_iff ascending fun n => (hmem n).trans (all n).symm
    obtain rfl := locations_eq hrel named
    cases hrel with
    | nil => simp at several
    | cons _ hrest =>
      cases hrest with
      | nil => simp at several
      | cons _ _ => rfl

/-- A lookup has the outcome that the declarations of the name give it. -/
theorem findFunction_eq_iff {r : Except SchemaError FuncDecl} :
    findFunction units name policy = r ↔ Finds units name policy r :=
  ⟨fun h => h ▸ findFunction_finds units name policy, findFunction_of_finds⟩

/-- An ambiguous name comes with all its places, each written as `path:line`. -/
theorem exists_places_of_ambiguous {locations : List (String × Nat)}
    (h : findFunction units name policy = .error (.ambiguousFunction name locations)) :
    ∃ places : List Nat, places.Pairwise (· < ·) ∧
      (∀ n, n ∈ places ↔ n ∈ functionPlaces units name) ∧
      List.Forall₂ (fun n text => ∃ path f, FunctionAt units name n path f ∧
        text = path ++ ":" ++ Text.decimal f.line) places (locations.map SchemaError.location) := by
  cases findFunction_eq_iff.mp h with
  | ambiguous several ascending all named =>
    refine ⟨_, ascending, all, List.forall₂_map_right_iff.mpr (named.imp ?_)⟩
    rintro n location ⟨path, f, hat, rfl⟩
    exact ⟨path, f, hat, rfl⟩

/-! ## Both name spaces -/

namespace SourceUnit

/-- The unit with nothing but its functions. -/
def onlyFunctions (unit : SourceUnit) : SourceUnit :=
  { unit with decls := unit.functions.map .func }

/-- The unit with nothing but its types. -/
def onlyTypes (unit : SourceUnit) : SourceUnit := { unit with decls := unit.types.map .type }

theorem functions_onlyFunctions (unit : SourceUnit) :
    unit.onlyFunctions.functions = unit.functions := by
  rw [onlyFunctions, functions, List.filterMap_map]
  exact List.filterMap_some

theorem types_onlyTypes (unit : SourceUnit) : unit.onlyTypes.types = unit.types := by
  rw [onlyTypes, types, List.filterMap_map]
  exact List.filterMap_some

end SourceUnit

/-- A function lookup sees no types. -/
theorem findFunction_onlyFunctions (units : List SourceUnit) (name : String)
    (policy : DuplicatePolicy) :
    findFunction (units.map SourceUnit.onlyFunctions) name policy =
      findFunction units name policy := by
  have hsame : functionsNamed (units.map SourceUnit.onlyFunctions) name =
      functionsNamed units name := by
    simp only [functionsNamed, List.flatMap_map, SourceUnit.functions_onlyFunctions]
    rfl
  unfold findFunction
  rw [hsame]

/-- A type lookup sees no functions. -/
theorem typeDecl?_onlyTypes (units : List SourceUnit) (name : String) :
    Package.typeDecl? ⟨units.map SourceUnit.onlyTypes⟩ name = Package.typeDecl? ⟨units⟩ name := by
  simp only [Package.typeDecl?, Package.types, List.flatMap_map, SourceUnit.types_onlyTypes]

/-- The first declaration of a name counts, in the order of the units and of the declarations in
    each, and functions and types do not meet: a type name stands for the type at its least place,
    which is what an index by name holds if no entry is overwritten, and a function lookup has the
    outcome that the places of the name give it. Where that is an error for several functions, the
    error names the units and lines of all. -/
theorem lookups_take_first (units : List SourceUnit) (name : String) :
    (∀ d, Package.typeDecl? ⟨units⟩ name = some d ↔
      ∃ n, IsLeast (typePlaces units name) n ∧ TypeAt units name n d) ∧
    (Package.typeDecl? ⟨units⟩ name = none ↔ typePlaces units name = ∅) ∧
    (typeIndex units)[name]? = Package.typeDecl? ⟨units⟩ name ∧
    (∀ policy r, findFunction units name policy = r ↔ Finds units name policy r) ∧
    (∀ policy locations,
      findFunction units name policy = .error (.ambiguousFunction name locations) →
        ∃ places : List Nat, places.Pairwise (· < ·) ∧
          (∀ n, n ∈ places ↔ n ∈ functionPlaces units name) ∧
          List.Forall₂ (fun n text => ∃ path f, FunctionAt units name n path f ∧
            text = path ++ ":" ++ Text.decimal f.line) places
            (locations.map SchemaError.location)) ∧
    Package.typeDecl? ⟨units.map SourceUnit.onlyTypes⟩ name = Package.typeDecl? ⟨units⟩ name ∧
    ∀ policy, findFunction (units.map SourceUnit.onlyFunctions) name policy =
      findFunction units name policy :=
  ⟨fun _ => typeDecl?_eq_some_iff, typeDecl?_eq_none_iff, getElem?_typeIndex units name,
    fun _ _ => findFunction_eq_iff, fun _ _ => exists_places_of_ambiguous,
    typeDecl?_onlyTypes units name, findFunction_onlyFunctions units name⟩

/-- Two units with declarations of one name, of both sorts. -/
def twiceDeclared : List SourceUnit :=
  [{ path := "a.go"
     decls := [.type { name := "F", type := .func }, .func { name := "F", line := 3 }] },
   { path := "b.go"
     decls := [.func { name := "G", line := 2 }, .func { name := "F", line := 7 }] }]

/-- The two functions of a name that is a type too. -/
theorem lookups_take_first_twice :
    ∃ places : List Nat, places.Pairwise (· < ·) ∧
      (∀ n, n ∈ places ↔ n ∈ functionPlaces twiceDeclared "F") ∧
      List.Forall₂ (fun n text => ∃ path f, FunctionAt twiceDeclared "F" n path f ∧
        text = path ++ ":" ++ Text.decimal f.line) places ["a.go:3", "b.go:7"] := by
  obtain ⟨-, -, -, -, hambiguous, -⟩ := lookups_take_first twiceDeclared "F"
  exact hambiguous .error [("a.go", 3), ("b.go", 7)] rfl

end CallSchema
