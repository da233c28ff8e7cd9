import CallSchema.Go.Grammar

/-!
Faults in syntax trees.

1. `firstFault?_eq_some_iff`: the search for a fault finds the node that stands for a syntax error,
   at whatever depth, with none before it in the order of the text; `firstFault?_eq_none_iff`: it
   finds nothing exactly if there is none.
2. `AllKinds.run`: the nodes that a rule takes, and those below them, have the kinds that the rules
   of the grammar name, apart from symbols and comments.
3. `hasFault_parse_iff`: so a text has a fault exactly if it is no Go file.
-/

namespace CallSchema.Go

namespace Node

/-- `n` is the tree itself or stands below it, at whatever depth. -/
inductive Within (n : Node) : Node → Prop
  | root : Within n n
  | child {m c : Node} (h : c ∈ m.children) (below : Within n c) : Within n m

/-- Some node of the tree stands for a syntax error. -/
def HasFault (tree : Node) : Prop := ∃ n, Within n tree ∧ n.kind.isFault = true

/-- `n` stands for a syntax error, and no node of the tree before it does. A node comes before its
    children, and those come in the order of the text. -/
inductive FirstFault (n : Node) : Node → Prop
  | root (fault : n.kind.isFault = true) : FirstFault n n
  | child {m c : Node} {before after : List Node} (sound : m.kind.isFault = false)
      (children : m.children = before ++ c :: after) (sounds : ∀ b ∈ before, ¬ b.HasFault)
      (below : FirstFault n c) : FirstFault n m

theorem hasFault_iff {m : Node} :
    m.HasFault ↔ m.kind.isFault = true ∨ ∃ c ∈ m.children, c.HasFault := by
  constructor
  · intro ⟨n, hn, hfault⟩
    cases hn with
    | root => exact .inl hfault
    | child hc below => exact .inr ⟨_, hc, n, below, hfault⟩
  · rintro (hfault | ⟨c, hc, n, hn, hfault⟩)
    · exact ⟨m, .root, hfault⟩
    · exact ⟨n, .child hc hn, hfault⟩

/-- The search finds nothing exactly if there is no fault. -/
theorem firstFault?_eq_none_iff (m : Node) : m.firstFault? = none ↔ ¬ m.HasFault := by
  rw [firstFault?_eq, hasFault_iff]
  split
  · rename_i hm
    simp [hm]
  · rename_i hm
    have ih : ∀ c ∈ m.children, (c.firstFault? = none ↔ ¬ c.HasFault) := fun c hc =>
      have := sizeOf_lt_of_mem_children hc
      firstFault?_eq_none_iff c
    rw [List.findSome?_eq_none_iff, or_iff_right hm, not_exists]
    refine forall_congr' fun c => ?_
    rw [not_and]
    exact forall_congr' fun hc => ih c hc
termination_by sizeOf m

/-- The search finds the first fault. -/
theorem firstFault?_eq_some_iff {n : Node} (m : Node) :
    m.firstFault? = some n ↔ FirstFault n m := by
  constructor
  · intro h
    rw [firstFault?_eq] at h
    split at h
    · rename_i hm
      obtain rfl := Option.some.inj h
      exact .root hm
    · rename_i hm
      obtain ⟨before, c, after, hchildren, hc, hbefore⟩ := List.findSome?_eq_some_iff.mp h
      have := sizeOf_lt_of_mem_children (n := m) (c := c) (by simp [hchildren])
      refine .child (by simpa using hm) hchildren (fun b hb => ?_)
        ((firstFault?_eq_some_iff c).mp hc)
      exact (firstFault?_eq_none_iff b).mp (hbefore b hb)
  · intro h
    induction h with
    | root fault => rw [firstFault?_eq, if_pos fault]
    | child sound children sounds _ ih =>
      rw [firstFault?_eq, if_neg (by simp [sound])]
      refine List.findSome?_eq_some_iff.mpr ⟨_, _, _, children, ih, fun b hb => ?_⟩
      exact (firstFault?_eq_none_iff b).mpr (sounds b hb)
termination_by sizeOf m

theorem hasFault_iff_exists_firstFault {m : Node} : m.HasFault ↔ ∃ n, FirstFault n m := by
  constructor
  · intro h
    cases hn : m.firstFault? with
    | none => exact absurd h ((firstFault?_eq_none_iff m).mp hn)
    | some n => exact ⟨n, (firstFault?_eq_some_iff m).mp hn⟩
  · intro ⟨n, hn⟩
    induction hn with
    | root fault => exact hasFault_iff.mpr (.inl fault)
    | @child _ c _ _ _ children _ _ ih => exact hasFault_iff.mpr (.inr ⟨c, by simp [children], ih⟩)

/-- All nodes of the tree have kinds with the property. -/
def AllKinds (P : Kind → Bool) (tree : Node) : Prop := ∀ n, Within n tree → P n.kind = true

theorem allKinds_iff {P : Kind → Bool} {tree : Node} :
    tree.AllKinds P ↔ P tree.kind = true ∧ ∀ c ∈ tree.children, c.AllKinds P := by
  constructor
  · intro h
    exact ⟨h tree .root, fun c hc n hn => h n (.child hc hn)⟩
  · intro ⟨htree, hchildren⟩ n hn
    cases hn with
    | root => exact htree
    | child hc below => exact hchildren _ hc n below

end Node

/-! ## The nodes that rules take -/

section Kinds

variable {σ : Type} {P : Kind → Bool}

/-- The kinds that the rule names have the property. -/
def Rule.kindsAll (P : Kind → Bool) : Rule σ → Bool
  | .word kind _ => P kind
  | .literal _ kind => P kind
  | .node kind rule => P kind && rule.kindsAll P
  | .ahead rule => rule.kindsAll P
  | .many rule => rule.kindsAll P
  | .role _ rule => rule.kindsAll P
  | .seq first second => first.kindsAll P && second.kindsAll P
  | .alt first second => first.kindsAll P && second.kindsAll P
  | _ => true

/-- All nodes of the trees have kinds with the property. -/
def AllKinds (P : Kind → Bool) (nodes : List Node) : Prop := ∀ n ∈ nodes, n.AllKinds P

theorem AllKinds.append {before after : List Node} (h : AllKinds P before) (h' : AllKinds P after) :
    AllKinds P (before ++ after) :=
  List.forall_mem_append.mpr ⟨h, h'⟩

theorem allKinds_leaf {n : Node} (h : P n.kind = true) (hn : n.children = []) :
    AllKinds P [n] := by
  refine List.forall_mem_singleton.mpr (Node.allKinds_iff.mpr ⟨h, ?_⟩)
  rw [hn]
  exact fun c hc => absurd hc List.not_mem_nil

theorem AllKinds.cons {n : Node} {nodes : List Node} (h : AllKinds P [n])
    (h' : AllKinds P nodes) : AllKinds P (n :: nodes) :=
  h.append h'

theorem AllKinds.wrap {source : Array Char} {kind : Kind} {nodes : List Node}
    (hkind : P kind = true) (h : AllKinds P nodes) : AllKinds P (Rule.wrap source kind nodes) := by
  have hcomments : AllKinds P (nodes.takeWhile Node.isComment) :=
    fun n hn => h n (List.takeWhile_subset _ hn)
  rw [Rule.wrap]
  split
  · exact hcomments
  · rename_i first others hinner
    refine hcomments.append (List.forall_mem_singleton.mpr (Node.allKinds_iff.mpr ⟨hkind, ?_⟩))
    intro c hc
    exact h c (List.dropWhile_subset _ (hinner ▸ hc))

theorem AllKinds.giveRole {role : Role} {nodes : List Node} (h : AllKinds P nodes) :
    AllKinds P (Rule.giveRole role nodes) := by
  intro m hm
  obtain ⟨n, hn, rfl⟩ := List.mem_map.mp hm
  obtain ⟨hkind, hchildren⟩ := Node.allKinds_iff.mp (h n hn)
  split
  · exact h n hn
  · exact Node.allKinds_iff.mpr ⟨hkind, hchildren⟩

section Lexemes

variable (hcomment : P .comment = true)
include hcomment

theorem AllKinds.next? {lexemes rest : List Lexeme} {nodes : List Node} {l : Lexeme}
    (h : Cursor.next? lexemes = some (nodes, l, rest)) : AllKinds P nodes := by
  induction lexemes generalizing nodes with
  | nil => cases h
  | cons first lexemes ih =>
    rw [Cursor.next?] at h
    split at h
    · obtain ⟨⟨comments, found⟩, hfound, heq⟩ := Option.map_eq_some_iff.mp h
      obtain ⟨rfl, rfl⟩ := Prod.mk.inj heq
      exact (allKinds_leaf hcomment rfl).cons (ih hfound)
    · obtain ⟨rfl, -⟩ := Prod.mk.inj (Option.some.inj h)
      exact fun n hn => absurd hn List.not_mem_nil

theorem AllKinds.take? {c c' : Cursor} {test : Lexeme → Bool} {kind : Lexeme → Kind}
    {nodes : List Node} (hkind : ∀ l, P (kind l) = true)
    (h : c.take? test kind = some (nodes, c')) : AllKinds P nodes := by
  obtain ⟨⟨comments, l, rest⟩, hnext, h⟩ := Option.bind_eq_some_iff.mp h
  dsimp only at h
  split at h
  · obtain ⟨rfl, -⟩ := Prod.mk.inj (Option.some.inj h)
    exact (AllKinds.next? hcomment hnext).append (allKinds_leaf (hkind l) rfl)
  · cases h

theorem AllKinds.terminator? (hsymbol : ∀ text, P (.symbol text) = true) {line : Nat}
    {lexemes : List Lexeme} {nodes : List Node} {c : Cursor}
    (h : Cursor.terminator? line lexemes = some (nodes, c)) : AllKinds P nodes := by
  induction lexemes generalizing line nodes with
  | nil =>
    obtain ⟨rfl, -⟩ := Prod.mk.inj (Option.some.inj h)
    exact fun n hn => absurd hn List.not_mem_nil
  | cons l lexemes ih =>
    rw [Cursor.terminator?] at h
    split at h
    · obtain ⟨rfl, -⟩ := Prod.mk.inj (Option.some.inj h)
      exact fun n hn => absurd hn List.not_mem_nil
    split at h
    · obtain ⟨⟨comments, found⟩, hfound, heq⟩ := Option.map_eq_some_iff.mp h
      obtain ⟨rfl, rfl⟩ := Prod.mk.inj heq
      exact (allKinds_leaf hcomment rfl).cons (ih hfound)
    split at h
    · obtain ⟨rfl, -⟩ := Prod.mk.inj (Option.some.inj h)
      exact allKinds_leaf (hsymbol _) rfl
    · cases h

/-- The kinds of what a rule takes, by induction on how deep rules may nest. -/
theorem AllKinds.run (hsymbol : ∀ text, P (.symbol text) = true) {source : Array Char}
    {grammar : σ → Rule σ} (hgrammar : ∀ name, (grammar name).kindsAll P = true) {fuel : Nat}
    {rule : Rule σ} {c c' : Cursor} {nodes : List Node} (hrule : rule.kindsAll P = true)
    (h : rule.run source grammar fuel c = some (nodes, c')) : AllKinds P nodes := by
  have hnil : AllKinds P [] := fun n hn => absurd hn List.not_mem_nil
  induction fuel generalizing rule c c' nodes with
  | zero => cases h
  | succ fuel ih =>
    cases rule with
    | empty =>
      obtain ⟨rfl, -⟩ := Prod.mk.inj (Option.some.inj h)
      exact hnil
    | exact text => exact AllKinds.take? hcomment (fun _ => hsymbol text) h
    | word kind reserved => exact AllKinds.take? hcomment (fun _ => hrule) h
    | literal sort kind => exact AllKinds.take? hcomment (fun _ => hrule) h
    | terminator => exact AllKinds.terminator? hcomment hsymbol h
    | sameLine =>
      rw [Rule.run] at h
      split at h
      · obtain ⟨rfl, -⟩ := Prod.mk.inj (Option.some.inj h)
        exact hnil
      · cases h
    | ahead rule =>
      obtain ⟨found, -, heq⟩ := Option.map_eq_some_iff.mp h
      obtain ⟨rfl, -⟩ := Prod.mk.inj heq
      exact hnil
    | seq first second =>
      obtain ⟨hfirst, hsecond⟩ := Bool.and_eq_true_iff.mp hrule
      obtain ⟨⟨before, c₁⟩, hbefore, h⟩ := Option.bind_eq_some_iff.mp h
      obtain ⟨⟨after, c₂⟩, hafter, h⟩ := Option.bind_eq_some_iff.mp h
      obtain ⟨rfl, -⟩ := Prod.mk.inj (Option.some.inj h)
      exact (ih hfirst hbefore).append (ih hsecond hafter)
    | alt first second =>
      obtain ⟨hfirst, hsecond⟩ := Bool.and_eq_true_iff.mp hrule
      rw [Rule.run] at h
      cases htry : first.run source grammar fuel c with
      | some found =>
        rw [htry] at h
        exact ih hfirst (htry.trans h)
      | none =>
        rw [htry] at h
        exact ih hsecond h
    | many rule =>
      have hbody : rule.kindsAll P = true := hrule
      rw [Rule.run] at h
      split at h
      · obtain ⟨rfl, -⟩ := Prod.mk.inj (Option.some.inj h)
        exact hnil
      · rename_i before c₁ hbefore
        obtain ⟨⟨more, c₂⟩, hmore, heq⟩ := Option.map_eq_some_iff.mp h
        obtain ⟨rfl, -⟩ := Prod.mk.inj heq
        exact (ih hbody hbefore).append (ih hrule hmore)
    | node kind rule =>
      obtain ⟨hkind, hrule⟩ := Bool.and_eq_true_iff.mp hrule
      obtain ⟨⟨inner, c₁⟩, hinner, heq⟩ := Option.map_eq_some_iff.mp h
      obtain ⟨rfl, -⟩ := Prod.mk.inj heq
      exact (ih hrule hinner).wrap hkind
    | role role rule =>
      have hbody : rule.kindsAll P = true := hrule
      obtain ⟨⟨inner, c₁⟩, hinner, heq⟩ := Option.map_eq_some_iff.mp h
      obtain ⟨rfl, -⟩ := Prod.mk.inj heq
      exact (ih hbody hinner).giveRole
    | call name => exact ih (hgrammar name) h

theorem AllKinds.children? (hsymbol : ∀ text, P (.symbol text) = true)
    {grammar : σ → Rule σ} (hgrammar : ∀ name, (grammar name).kindsAll P = true)
    {source : List Char} {rule : Rule σ} {nodes : List Node} (hrule : rule.kindsAll P = true)
    (h : Rule.children? source grammar rule = some nodes) : AllKinds P nodes := by
  obtain ⟨lexemes, -, h⟩ := Option.bind_eq_some_iff.mp h
  obtain ⟨⟨taken, c⟩, htaken, h⟩ := Option.bind_eq_some_iff.mp h
  dsimp only at h
  split at h
  · obtain rfl := Option.some.inj h
    refine (AllKinds.run hcomment hsymbol hgrammar hrule htaken).append fun n hn => ?_
    obtain ⟨l, -, rfl⟩ := List.mem_map.mp hn
    exact allKinds_leaf (n := Cursor.commentNode l) hcomment rfl _ List.mem_cons_self
  · cases h

end Lexemes

end Kinds

/-- The kind stands for no syntax error. -/
def Kind.isClean (kind : Kind) : Bool := !kind.isFault

/-- No rule of the grammar names a kind of fault. -/
theorem kindsAll_rule (p : Phrase) : p.rule.kindsAll Kind.isClean = true := by
  cases p with
  | type line => cases line <;> rfl
  | simpleType line => cases line <;> rfl
  | typeElem line => cases line <;> rfl
  | expression c =>
    obtain ⟨line, braces, types⟩ := c
    cases line <;> cases braces <;> cases types <;> rfl
  | expressions c =>
    obtain ⟨line, braces, types⟩ := c
    cases line <;> rfl
  | simpleStatement c =>
    obtain ⟨line, braces, types⟩ := c
    cases line <;> rfl
  | _ => rfl

/-- The tree of a file has no fault. -/
theorem not_hasFault_of_sourceFile? {source : String} {tree : Node}
    (h : sourceFile? source = some tree) : ¬ tree.HasFault := by
  obtain ⟨children, hchildren, h⟩ := Option.bind_eq_some_iff.mp h
  obtain rfl := Option.some.inj h
  have hclean : AllKinds Kind.isClean children :=
    AllKinds.children? rfl (fun _ => rfl) kindsAll_rule rfl hchildren
  intro ⟨n, hn, hfault⟩
  cases hn with
  | root => cases hfault
  | child hc below =>
    have hkind := hclean _ hc n below
    rw [Kind.isClean, hfault] at hkind
    cases hkind

theorem hasFault_parse_iff {source : String} :
    (parse source).HasFault ↔ sourceFile? source = none := by
  rw [parse]
  cases h : sourceFile? source with
  | none => exact ⟨fun _ => rfl, fun _ => ⟨_, .root, rfl⟩⟩
  | some tree =>
    have hclean := not_hasFault_of_sourceFile? h
    exact ⟨fun hfault => absurd hfault hclean, fun hnone => absurd hnone (Option.some_ne_none tree)⟩

end CallSchema.Go
