import CallSchema.Proofs.Subterms
import Mathlib.Data.List.Dedup
import Mathlib.Data.List.Perm.Subperm

/-!
Following names without a list of those entered.

`EndsAfter p n scope e r` says that the chain of names from `e` ends after `n` links, with the
result `r`; nothing keeps a chain from going on for ever.

1. `EndsAfter.unique`: a chain ends in one way.
2. `EndsAfter.length_eq`: where no declaration stands for one of its own parameters, the arguments
   of a name do not show in the length of the chain behind it.
3. `resolve_of_endsAfter`: so a chain that ends meets no name twice, and its end is what the
   expression is underneath.
4. `resolve_of_endless`: an expression with an endless chain is no type, which is not an error.
5. `resolve_underlying`: whatever the chain, its end or endlessness is found in at most one round
   more than there are declared names (`followWithin`).
-/

namespace CallSchema.Package

variable {p : Package} {n m : Nat} {scope : List String} {e : TypeExpr}
  {r r' : Except SchemaError ResolvedType}

/-- The chain from the expression ends after this many links. -/
inductive EndsAfter (p : Package) :
    Nat → List String → TypeExpr → Except SchemaError ResolvedType → Prop
  | ends {scope : List String} {e : TypeExpr} {r : Except SchemaError ResolvedType}
      (h : p.link scope e = .ends r) : EndsAfter p 0 scope e r
  | follows {n : Nat} {scope : List String} {e body : TypeExpr} {name : String}
      {r : Except SchemaError ResolvedType} (h : p.link scope e = .follows name body)
      (rest : EndsAfter p n [] body r) : EndsAfter p (n + 1) scope e r

/-- The chain from the expression never ends. -/
def Endless (p : Package) (scope : List String) (e : TypeExpr) : Prop :=
  ∀ n r, ¬ EndsAfter p n scope e r

/-- No declaration stands for one of its own parameters. -/
def NoSelfParam (p : Package) : Prop :=
  ∀ d ∈ p.types, ∀ name ∈ d.typeParams, d.type ≠ .named name []

theorem EndsAfter.unique (h : EndsAfter p n scope e r) (h' : EndsAfter p m scope e r') :
    n = m ∧ r = r' := by
  induction h generalizing m with
  | ends hl =>
    cases h' with
    | ends hl' => exact ⟨rfl, Link.ends.inj (hl.symm.trans hl')⟩
    | follows hl' _ => exact absurd (hl.symm.trans hl') nofun
  | follows hl _ ih =>
    cases h' with
    | ends hl' => exact absurd (hl.symm.trans hl') nofun
    | follows hl' rest' =>
      obtain ⟨-, rfl⟩ := Link.follows.inj (hl.symm.trans hl')
      obtain ⟨hn, hr⟩ := ih rest'
      exact ⟨congrArg (· + 1) hn, hr⟩

/-! ## Instances of one declaration -/

/-- The declaration that the body of a declaration names. -/
def next? (p : Package) (d : TypeDecl) : Option TypeDecl :=
  match d.type with
  | .named name _ => p.typeDecl? name
  | _ => none

/-- The body of a declaration that is a name stays one of that name. -/
theorem instantiate_named {d : TypeDecl} {name : String} {own : List TypeExpr}
    (hd : d.type = .named name own) (hself : ∀ param ∈ d.typeParams, d.type ≠ .named param [])
    (scope : List String) (args : List TypeExpr) :
    ∃ own', instantiate d scope args = .named name own' := by
  unfold instantiate
  cases own with
  | cons a own => exact ⟨_, by rw [hd, TypeExpr.substitute]; rfl⟩
  | nil =>
    have hname : name ∉ d.typeParams := fun hm => hself name hm hd
    refine ⟨[], ?_⟩
    rw [hd, TypeExpr.substitute_bare, TypeExpr.substituteName,
      List.idxOf?_eq_none_iff.mpr hname]

/-- Behind a body that names no declaration the chain ends. -/
theorem link_instantiate_of_none {d : TypeDecl}
    (hself : ∀ param ∈ d.typeParams, d.type ≠ .named param []) (h : p.next? d = none)
    (scope : List String) (args : List TypeExpr) :
    ∃ r, p.link [] (instantiate d scope args) = .ends r := by
  cases hd : d.type with
  | named name own =>
    obtain ⟨own', hi⟩ := instantiate_named hd hself scope args
    have hnone : p.typeDecl? name = none := by simpa [next?, hd] using h
    rw [hi, link_named, if_neg (by simp), hnone]
    cases predeclared? name with
    | none => exact ⟨_, rfl⟩
    | some type => exact ⟨_, rfl⟩
  | _ => exact ⟨_, by rw [instantiate, hd]; rfl⟩

/-- Behind a body that names a declaration the chain goes on with an instance of that one. -/
theorem link_instantiate_of_some {d d' : TypeDecl}
    (hself : ∀ param ∈ d.typeParams, d.type ≠ .named param []) (h : p.next? d = some d')
    (scope : List String) (args : List TypeExpr) :
    ∃ name args', p.link [] (instantiate d scope args) =
      .follows name (instantiate d' [] args') := by
  cases hd : d.type with
  | named name own =>
    obtain ⟨own', hi⟩ := instantiate_named hd hself scope args
    have hsome : p.typeDecl? name = some d' := by simpa [next?, hd] using h
    refine ⟨name, own', ?_⟩
    rw [hi, link_named, if_neg (by simp), hsome]
  | _ => simp [next?, hd] at h

theorem mem_types_of_next? {d d' : TypeDecl} (h : p.next? d = some d') : d' ∈ p.types := by
  unfold next? at h
  split at h
  · exact List.mem_of_find?_eq_some h
  · simp at h

/-- Chains from two instances of one declaration are of one length. -/
theorem EndsAfter.length_eq (hp : p.NoSelfParam) {d : TypeDecl} (hd : d ∈ p.types)
    {scope scope' : List String} {args args' : List TypeExpr}
    (h : EndsAfter p n [] (instantiate d scope args) r)
    (h' : EndsAfter p m [] (instantiate d scope' args') r') : n = m := by
  induction n generalizing m d scope scope' args args' with
  | zero =>
    cases hnext : p.next? d with
    | none =>
      obtain ⟨r₁, hl⟩ := link_instantiate_of_none (hp d hd) hnext scope' args'
      exact ((EndsAfter.ends hl).unique h').1
    | some d' =>
      obtain ⟨name, own, hl⟩ := link_instantiate_of_some (hp d hd) hnext scope args
      cases h with
      | ends hl' => exact absurd (hl.symm.trans hl') nofun
  | succ n ih =>
    cases hnext : p.next? d with
    | none =>
      obtain ⟨r₁, hl⟩ := link_instantiate_of_none (hp d hd) hnext scope args
      cases h with
      | follows hl' _ => exact absurd (hl.symm.trans hl') nofun
    | some d' =>
      obtain ⟨name, own, hl⟩ := link_instantiate_of_some (hp d hd) hnext scope args
      obtain ⟨name', own', hl'⟩ := link_instantiate_of_some (hp d hd) hnext scope' args'
      cases h with
      | follows hfirst rest =>
        obtain ⟨-, rfl⟩ := Link.follows.inj (hl.symm.trans hfirst)
        cases h' with
        | ends hend => exact absurd (hl'.symm.trans hend) nofun
        | follows hfirst' rest' =>
          obtain ⟨-, rfl⟩ := Link.follows.inj (hl'.symm.trans hfirst')
          exact congrArg (· + 1) (ih (mem_types_of_next? hnext) rest rest')

/-! ## The list of the names entered -/

/-- The chain behind a name that has been entered is no shorter than the one that is left. -/
def Entered (p : Package) (fresh : List String) (n : Nat) : Prop :=
  ∀ name d, p.typeDecl? name = some d → name ∉ fresh → ∀ scope args m r,
    EndsAfter p m [] (instantiate d scope args) r → n ≤ m

theorem follow_of_endsAfter (hp : p.NoSelfParam) {fresh : List String}
    (h : EndsAfter p n scope e r) (hfresh : Entered p fresh n) : p.follow fresh scope e = r := by
  induction h generalizing fresh with
  | ends hl => exact follow_of_ends hl
  | @follows n scope e body name r hl rest ih =>
    obtain ⟨args, d, -, -, hd, rfl⟩ := link_follows hl
    -- The chain behind the name is shorter than the one from it, so it is entered first here.
    have hname : name ∈ fresh := Decidable.byContradiction fun hnot =>
      Nat.not_succ_le_self n (hfresh name d hd hnot _ _ _ _ rest)
    rw [follow_of_mem hl hname]
    refine ih fun other d' hd' hnot scope' args' m r' h' => ?_
    by_cases hother : other = name
    · subst hother
      obtain rfl : d = d' := Option.some.inj (hd.symm.trans hd')
      exact Nat.le_of_eq (rest.length_eq hp (List.mem_of_find?_eq_some hd) h')
    · have hold : other ∉ fresh := fun hm =>
        hnot (List.mem_filter.mpr ⟨hm, by simpa using hother⟩)
      exact Nat.le_of_succ_le (hfresh other d' hd' hold scope' args' m r' h')

/-- A chain that ends is followed to its end. -/
theorem resolve_of_endsAfter (hp : p.NoSelfParam) (h : EndsAfter p n scope e r) :
    p.resolve scope e = r :=
  follow_of_endsAfter hp h fun _ _ hd hnot =>
    absurd (mem_typeNames_of_typeDecl? hd) hnot

theorem follow_of_endless {fresh : List String} (h : p.Endless scope e) :
    ∃ what, p.follow fresh scope e = .ok (.unsupported what) := by
  fun_induction follow p fresh scope e with
  | case1 fresh scope e result hl => exact absurd (.ends hl) (h 0 result)
  | case2 fresh scope e name body hl hm ih =>
    exact ih fun n r hr => h (n + 1) r (.follows hl hr)
  | case3 fresh scope e name body hl hm => exact ⟨_, rfl⟩

/-- An endless chain leads to no type, whatever the package declares. -/
theorem resolve_of_endless (h : p.Endless scope e) :
    ∃ what, p.resolve scope e = .ok (.unsupported what) :=
  follow_of_endless h

/-! ## Rounds -/

/-- Follows the chain from an expression, one link each round, while there are rounds left.
    `entered` holds the names entered so far, the last one first. -/
def followWithin (p : Package) : (rounds : Nat) → (entered scope : List String) → TypeExpr →
    Option (Except SchemaError ResolvedType)
  | 0, _, _, _ => none
  | rounds + 1, entered, scope, e =>
    match p.link scope e with
    | .ends result => some result
    | .follows name body =>
      if name ∈ entered then some (.ok (.unsupported ("invalid recursive type " ++ name)))
      else p.followWithin rounds (name :: entered) [] body

/-- How many names the package declares as types. -/
def declaredCount (p : Package) : Nat := p.typeNames.dedup.length

/-- Names that were entered one after another are no more than there are. -/
theorem length_le_declaredCount {entered : List String} (hn : entered.Nodup)
    (hs : entered ⊆ p.typeNames) : entered.length ≤ p.declaredCount :=
  (List.subperm_of_subset hn fun _ h => List.mem_dedup.mpr (hs h)).length_le

/-- One round for each name that is left, and one more, are enough. -/
theorem followWithin_eq {rounds : Nat} {fresh entered : List String}
    (hfresh : ∀ name, name ∈ fresh ↔ name ∈ p.typeNames ∧ name ∉ entered) (hn : entered.Nodup)
    (hs : entered ⊆ p.typeNames) (hrounds : p.declaredCount < rounds + entered.length) :
    p.followWithin rounds entered scope e = some (p.follow fresh scope e) := by
  induction rounds generalizing fresh entered scope e with
  | zero =>
    have hle := length_le_declaredCount hn hs
    omega
  | succ rounds ih =>
    rw [followWithin]
    cases hl : p.link scope e with
    | ends result => exact congrArg some (follow_of_ends hl).symm
    | follows name body =>
      obtain ⟨_, d, -, -, hd, -⟩ := link_follows hl
      have hdeclared : name ∈ p.typeNames := mem_typeNames_of_typeDecl? hd
      by_cases hentered : name ∈ entered
      · have hnot : name ∉ fresh := fun hm => ((hfresh name).mp hm).2 hentered
        simp only [if_pos hentered]
        exact congrArg some (follow_of_notMem hl hnot).symm
      · have hname : name ∈ fresh := (hfresh name).mpr ⟨hdeclared, hentered⟩
        simp only [if_neg hentered]
        rw [follow_of_mem hl hname]
        refine ih (fun other => ?_) (List.nodup_cons.mpr ⟨hentered, hn⟩)
          (List.cons_subset.mpr ⟨hdeclared, hs⟩) ?_
        · rw [without, List.mem_filter, hfresh, List.mem_cons, not_or]
          simp only [bne_iff_ne, ne_eq]
          tauto
        · rw [List.length_cons]
          omega

/-- What an expression is underneath is found in at most one round more than there are declared
    names. If no declaration stands for one of its own parameters, it is the end of the chain of
    names from the expression, however often a name comes up; and if the chain has no end, the
    expression is no type, which is not an error. -/
theorem resolve_underlying (p : Package) :
    (∀ scope e, p.followWithin (p.declaredCount + 1) [] scope e = some (p.resolve scope e)) ∧
    (p.NoSelfParam → ∀ scope e,
      (∀ n r, EndsAfter p n scope e r → p.resolve scope e = r) ∧
      (p.Endless scope e → ∃ what, p.resolve scope e = .ok (.unsupported what))) := by
  refine ⟨fun scope e => ?_, fun hp scope e => ⟨fun n r => resolve_of_endsAfter hp,
    resolve_of_endless⟩⟩
  exact followWithin_eq (by simp) List.nodup_nil (List.nil_subset _) (Nat.lt_succ_self _)

/-- `type Row[T any] Line[*T]`, `type Line[T any] []T`, `type Left Right` and `type Right Left`. -/
def chainPackage : Package :=
  { units := [{ path := "chain.go", decls := [
      .type
        { name := "Row", typeParams := ["T"], type := .named "Line" [.pointer (.named "T" [])] },
      .type { name := "Line", typeParams := ["T"], type := .slice (.named "T" []) },
      .type { name := "Left", type := .named "Right" [] },
      .type { name := "Right", type := .named "Left" [] }] }] }

/-- `Row[int]` is a sequence underneath, and `Left` is no type. -/
theorem resolve_underlying_chain :
    chainPackage.NoSelfParam ∧
      EndsAfter chainPackage 2 [] (.named "Row" [.named "int" []])
        (.ok (.sequence (.pointer (.named "int" [])))) ∧
      chainPackage.resolve [] (.named "Row" [.named "int" []]) =
        .ok (.sequence (.pointer (.named "int" []))) ∧
      chainPackage.Endless [] (.named "Left" []) ∧
      ∃ what, chainPackage.resolve [] (.named "Left" []) = .ok (.unsupported what) := by
  have hp : chainPackage.NoSelfParam := by
    intro d hd name hm
    simp only [Package.types, chainPackage, SourceUnit.types, List.flatMap_cons, List.flatMap_nil,
      List.append_nil, List.filterMap_cons, Decl.type?, List.filterMap_nil, List.mem_cons,
      List.not_mem_nil, or_false] at hd
    rcases hd with rfl | rfl | rfl | rfl <;> simp at hm ⊢
  have hrow : EndsAfter chainPackage 2 [] (.named "Row" [.named "int" []])
      (.ok (.sequence (.pointer (.named "int" [])))) :=
    .follows rfl (.follows rfl (.ends rfl))
  have hloop : ∀ n r, ¬ EndsAfter chainPackage n [] (.named "Left" []) r ∧
      ¬ EndsAfter chainPackage n [] (.named "Right" []) r := by
    intro n
    induction n with
    | zero =>
      intro r
      constructor
      · rintro ⟨hl⟩
        exact Link.noConfusion hl
      · rintro ⟨hl⟩
        exact Link.noConfusion hl
    | succ n ih =>
      intro r
      constructor
      · rintro (_ | ⟨hl, rest⟩)
        obtain ⟨-, rfl⟩ := Link.follows.inj hl
        exact (ih r).2 rest
      · rintro (_ | ⟨hl, rest⟩)
        obtain ⟨-, rfl⟩ := Link.follows.inj hl
        exact (ih r).1 rest
  have hleft : chainPackage.Endless [] (.named "Left" []) := fun n r => (hloop n r).1
  obtain ⟨-, hresolve⟩ := resolve_underlying chainPackage
  exact ⟨hp, hrow, (hresolve hp [] _).1 2 _ hrow, hleft, (hresolve hp [] _).2 hleft⟩

end CallSchema.Package
