import CallSchema.Proofs.Extraction
import CallSchema.Proofs.Subterms

/-!
Which expressions trees write.

1. `exists_writes`: a tree can be made for every expression in which nothing is opaque and each
   field of a struct has a name and no dots before its type.
2. `exists_writes_iff`: no tree writes any other expression.
3. `typeExpr_inverts_writing`: so these are the expressions that reading gives back, and it gives
   them back from whatever tree writes them.
-/

namespace CallSchema.Go.Node

variable {n : Node} {t : TypeExpr} {parts : List Node}

/-! ## Making nodes -/

/-- A node without children. -/
def leaf (kind : Kind) (role : Option Role) (text : String) : Node :=
  { kind, role, text, span := default }

/-- A node with the children. -/
def branch (kind : Kind) (role : Option Role) (children : List Node) : Node :=
  { kind, role, text := "", span := default, children }

/-- The node of a symbol. -/
def symbol (text : String) : Node := leaf (.symbol text) none text

/-- A bracketed list with a separator after each item. -/
def bracketed (opening : String) (separator : Node) (items : List Node) (closing : String) :
    List Node :=
  symbol opening :: ((items.flatMap fun item => [item, separator]) ++ [symbol closing])

theorem Is.isComment_eq_false {kind : Kind} {role : Option Role} (h : n.Is kind role)
    (hkind : kind ≠ .comment) : n.isComment = false :=
  beq_false_of_ne fun he => hkind (h.kind.symm.trans he)

@[simp] theorem isComment_symbol (text : String) : (symbol text).isComment = false := rfl

theorem is_symbol (text : String) : (symbol text).Is (.symbol text) none := ⟨rfl, rfl⟩

theorem areSymbols_map (texts : List String) : AreSymbols texts (texts.map symbol) := by
  induction texts with
  | nil => exact .nil
  | cons text texts ih => exact .cons (is_symbol text) ih

theorem has_branch {kind : Kind} {role : Option Role} (h : ∀ c ∈ parts, c.isComment = false) :
    (branch kind role parts).Has parts := by
  refine ⟨List.filter_eq_self.mpr fun c hc => by simp [h c hc], fun c hc hcomment => ?_⟩
  rw [h c hc] at hcomment
  cases hcomment

theorem filter_flatMap_separated {items : List Node} {separator : Node} {p : Node → Bool}
    (hseparator : p separator = false) (hitems : ∀ c ∈ items, p c = true) :
    (items.flatMap fun item => [item, separator]).filter p = items := by
  induction items with
  | nil => rfl
  | cons c items ih =>
    obtain ⟨hc, hitems⟩ := List.forall_mem_cons.mp hitems
    rw [List.flatMap_cons, List.filter_append, ih hitems, List.filter_cons_of_pos hc,
      List.filter_cons_of_neg (by simp [hseparator])]
    rfl

theorem lists_branch {kind : Kind} {role : Option Role} {opening closing : String}
    {separators : List Kind} {separator : Node} {items : List Node}
    (hseparator : separator.kind ∈ separators) (hcomment : separator.isComment = false)
    (hitems : ∀ c ∈ items, c.isComment = false ∧ c.kind ∉ separators) :
    (branch kind role (bracketed opening separator items closing)).Lists opening separators items
      closing := by
  refine ⟨_, _, _, has_branch ?_, rfl, rfl, filter_flatMap_separated ?_ ?_⟩
  · intro c hc
    rw [bracketed, List.mem_cons, List.mem_append, List.mem_flatMap] at hc
    rcases hc with rfl | ⟨item, hitem, hc⟩ | hc
    · rfl
    · rcases List.mem_pair.mp hc with rfl | rfl
      · exact (hitems c hitem).1
      · exact hcomment
    · rw [List.mem_singleton.mp hc]
      rfl
  · simp [hseparator]
  · intro c hc
    simpa using (hitems c hc).2

/-! ## What is written is no comment -/

theorem Writes.isComment_eq_false (h : Writes n t) : n.isComment = false := by
  refine beq_false_of_ne fun he => ?_
  have htype := h.isType
  rw [he] at htype
  cases htype

theorem WriteNames.isComment_eq_false {nodes : List Node} {names : List String}
    (h : WriteNames nodes names) : ∀ c ∈ nodes, c.isComment = false := by
  induction h with
  | last h => simpa using h.isComment_eq_false (by decide)
  | cons h hcomma _ ih =>
    exact List.forall_mem_cons.mpr ⟨h.isComment_eq_false (by decide),
      List.forall_mem_cons.mpr ⟨hcomma.isComment_eq_false (by decide), ih⟩⟩

theorem WriteTag.isComment_eq_false {tags : List Node} {tag : Option String}
    (h : WriteTag tags tag) : ∀ c ∈ tags, c.isComment = false := by
  cases h with
  | absent => exact fun c hc => absurd hc List.not_mem_nil
  | present h => simpa using h.isComment_eq_false (by decide)

/-! ## Trees for expressions -/

/-- The head of an expression can be written: it is not opaque, and every field has a name. -/
def Expressible : TypeExpr → Prop
  | .other _ => False
  | .struct fields => ∀ f ∈ fields, f.names ≠ [] ∧ f.variadic = false
  | _ => True

theorem exists_writeNames {names : List String} (h : names ≠ []) :
    ∃ nodes, WriteNames nodes names := by
  induction names with
  | nil => exact absurd rfl h
  | cons name names ih =>
    have hname : (leaf .fieldIdentifier (some .name) name).Is .fieldIdentifier (some .name) :=
      ⟨rfl, rfl⟩
    cases names with
    | nil => exact ⟨_, .last hname⟩
    | cons next names =>
      obtain ⟨nodes, hnodes⟩ := ih (List.cons_ne_nil _ _)
      exact ⟨_, .cons hname (is_symbol ",") hnodes⟩

theorem exists_writeTag (tag : Option String) : ∃ tags, WriteTag tags tag := by
  cases tag with
  | none => exact ⟨[], .absent⟩
  | some text =>
    have h : (leaf .stringLiteral (some .tag) text).Is .stringLiteral (some .tag) := ⟨rfl, rfl⟩
    exact ⟨_, .present h⟩

theorem exists_map_eq {α β : Type} {f : α → β} {P : α → Prop} {bs : List β}
    (h : ∀ b ∈ bs, ∃ a, f a = b ∧ P a) : ∃ as : List α, as.map f = bs ∧ ∀ a ∈ as, P a := by
  induction bs with
  | nil => exact ⟨[], rfl, fun a ha => absurd ha List.not_mem_nil⟩
  | cons b bs ih =>
    obtain ⟨⟨a, ha, hP⟩, h⟩ := List.forall_mem_cons.mp h
    obtain ⟨as, has, hall⟩ := ih h
    exact ⟨a :: as, by rw [List.map_cons, ha, has], List.forall_mem_cons.mpr ⟨hP, hall⟩⟩

theorem exists_fieldTree {f : FieldDecl} (hnames : f.names ≠ []) (hvariadic : f.variadic = false)
    {inner : Node} (hrole : inner.role = some .type) (h : Writes inner f.type) :
    ∃ tree : FieldTree, tree.decl = f ∧ tree.Sound ∧ Writes tree.inner tree.type := by
  obtain ⟨names, type, tag, comments, variadic⟩ := f
  obtain rfl : variadic = false := hvariadic
  obtain ⟨nodes, hnodes⟩ := exists_writeNames hnames
  obtain ⟨tags, htags⟩ := exists_writeTag tag
  have hparts : (branch .fieldDeclaration none (nodes ++ inner :: tags)).Has
      (nodes ++ inner :: tags) := by
    refine has_branch fun c hc => ?_
    rcases List.mem_append.mp hc with hc | hc
    · exact hnodes.isComment_eq_false c hc
    · rcases List.mem_cons.mp hc with rfl | hc
      · exact h.isComment_eq_false
      · exact htags.isComment_eq_false c hc
  exact ⟨⟨_, inner, type, _⟩, rfl, ⟨rfl, hrole, .named hparts hnodes htags⟩, h⟩

/-- Some tree writes the expression, whatever role it is to play. -/
theorem exists_writes (h : t.All Expressible) (role : Option Role) :
    ∃ n, n.role = role ∧ Writes n t := by
  induction h generalizing role with
  | @intro t head below ih =>
    cases t with
    | named name args =>
      have hname : Writes (leaf .typeIdentifier (some .type) name) (.named name []) := .name rfl
      cases args with
      | nil => exact ⟨leaf .typeIdentifier role name, rfl, .name rfl⟩
      | cons arg args =>
        obtain ⟨pairs, hpairs, hwrites⟩ : ∃ pairs : List (Node × TypeExpr),
            pairs.map Prod.snd = arg :: args ∧ ∀ p ∈ pairs, Writes p.1 p.2 := by
          refine exists_map_eq fun a ha => ?_
          obtain ⟨n, -, hn⟩ := ih a ha none
          exact ⟨(n, a), rfl, hn⟩
        have hlists : (branch .typeArguments (some .typeArguments)
            (bracketed "[" (symbol ",") (pairs.map Prod.fst) "]")).Lists "[" [.symbol ","]
              (pairs.map Prod.fst) "]" := by
          refine lists_branch (by decide) rfl fun c hc => ?_
          obtain ⟨p, hp, rfl⟩ := List.mem_map.mp hc
          have htype := (hwrites p hp).isType
          refine ⟨(hwrites p hp).isComment_eq_false, fun hsymbol => ?_⟩
          rw [List.mem_singleton.mp hsymbol] at htype
          cases htype
        rw [← hpairs]
        exact ⟨branch .genericType role [_, _], rfl, .generic rfl
          (has_branch (by simp; exact ⟨rfl, rfl⟩)) rfl ⟨rfl, rfl⟩ hlists hname hwrites⟩
    | qualified package name =>
      exact ⟨branch .qualifiedType role [leaf .packageIdentifier (some .package) package,
        symbol ".", leaf .typeIdentifier (some .name) name], rfl,
        .qualified rfl (has_branch (by simp; exact ⟨rfl, rfl⟩)) rfl (is_symbol ".") rfl⟩
    | pointer pointee =>
      obtain ⟨inner, -, h⟩ := ih pointee List.mem_cons_self none
      exact ⟨branch .pointerType role [symbol "*", inner], rfl, .pointer rfl
        (has_branch (by simp [h.isComment_eq_false])) (is_symbol "*") h⟩
    | slice element =>
      obtain ⟨inner, hrole, h⟩ := ih element List.mem_cons_self (some .element)
      exact ⟨branch .sliceType role (["[", "]"].map symbol ++ [inner]), rfl, .slice rfl
        (has_branch (by simp [h.isComment_eq_false])) (areSymbols_map _) hrole h⟩
    | array element =>
      obtain ⟨inner, hrole, h⟩ := ih element List.mem_cons_self (some .element)
      exact ⟨branch .implicitLengthArrayType role (["[", "...", "]"].map symbol ++ [inner]), rfl,
        .implicitArray rfl (has_branch (by simp [h.isComment_eq_false])) (areSymbols_map _) hrole h⟩
    | struct fields =>
      obtain ⟨trees, htrees, hsound⟩ : ∃ trees : List FieldTree,
          trees.map FieldTree.decl = fields ∧
            ∀ tree ∈ trees, tree.Sound ∧ Writes tree.inner tree.type := by
        refine exists_map_eq fun f hf => ?_
        obtain ⟨inner, hrole, h⟩ := ih f.type (List.mem_map_of_mem hf) (some .type)
        exact exists_fieldTree (head f hf).1 (head f hf).2 hrole h
      have hlists : (branch .fieldDeclarationList none
          (bracketed "\x7b" (symbol ";") (trees.map FieldTree.node) "\x7d")).Lists "\x7b"
            [.symbol ";", .newline] (trees.map FieldTree.node) "\x7d" := by
        refine lists_branch (by decide) rfl fun c hc => ?_
        obtain ⟨tree, htree, rfl⟩ := List.mem_map.mp hc
        have hkind := (hsound tree htree).1.kind
        simp [isComment, hkind]
      rw [← htrees]
      exact ⟨branch .structType role [symbol "struct", _], rfl, .struct rfl
        (has_branch (by simp; rfl)) (is_symbol "struct") rfl hlists
        (fun tree htree => (hsound tree htree).1) fun tree htree => (hsound tree htree).2⟩
    | map key value =>
      obtain ⟨k, hk, hkey⟩ := ih key List.mem_cons_self (some .key)
      obtain ⟨v, hv, hvalue⟩ :=
        ih value (List.mem_cons_of_mem key List.mem_cons_self) (some .value)
      exact ⟨branch .mapType role
        (["map", "["].map symbol ++ k :: (["]"].map symbol ++ [v])), rfl, .map rfl
        (has_branch (by simp [hkey.isComment_eq_false, hvalue.isComment_eq_false]))
        (areSymbols_map _) (areSymbols_map _) hk hv hkey hvalue⟩
    | chan element =>
      obtain ⟨inner, hrole, h⟩ := ih element List.mem_cons_self (some .value)
      exact ⟨branch .channelType role (["chan"].map symbol ++ [inner]), rfl, .channel rfl
        (has_branch (by simp [h.isComment_eq_false])) List.mem_cons_self (areSymbols_map _) hrole h⟩
    | interface => exact ⟨leaf .interfaceType role "", rfl, .interface rfl⟩
    | func => exact ⟨leaf .functionType role "", rfl, .func rfl⟩
    | other text => exact head.elim

theorem Declares.names_ne_nil {inner : Node} {f : FieldDecl} (h : Declares n inner t f) :
    f.names ≠ [] ∧ f.variadic = false := by
  cases h with
  | named parts hnames htag => exact ⟨hnames.ne_nil, rfl⟩
  | embedded parts hname htag => exact ⟨List.cons_ne_nil _ _, rfl⟩
  | embeddedPointer parts hstar hname htag => exact ⟨List.cons_ne_nil _ _, rfl⟩

theorem Declares.all_expressible {inner : Node} {f : FieldDecl} (h : Declares n inner t f)
    (ht : t.All Expressible) : f.type.All Expressible := by
  cases h with
  | named parts hnames htag => exact ht
  | embedded parts hname htag => exact ht
  | embeddedPointer parts hstar hname htag =>
    exact .intro trivial (List.forall_mem_singleton.mpr ht)

theorem Writes.all_expressible (h : Writes n t) : t.All Expressible := by
  induction h with
  | typeElem _ _ _ ih => exact ih
  | parenthesized _ _ _ _ _ ih => exact ih
  | @generic _ _ _ _ args _ _ _ _ _ _ _ _ ih =>
    refine .intro trivial fun c hc => ?_
    obtain ⟨arg, harg, rfl⟩ := List.mem_map.mp hc
    exact ih arg harg
  | @struct _ _ _ fields _ _ _ _ _ sound _ ih =>
    refine .intro ?_ ?_
    · intro f hf
      obtain ⟨tree, htree, rfl⟩ := List.mem_map.mp hf
      exact (sound tree htree).declares.names_ne_nil
    · intro c hc
      obtain ⟨f, hf, rfl⟩ := List.mem_map.mp hc
      obtain ⟨tree, htree, rfl⟩ := List.mem_map.mp hf
      exact (sound tree htree).declares.all_expressible (ih tree htree)
  | map _ _ _ _ _ _ _ _ ihkey ihvalue =>
    exact .intro trivial (List.forall_mem_cons.mpr ⟨ihkey, List.forall_mem_singleton.mpr ihvalue⟩)
  | pointer | slice | array | implicitArray | channel =>
    rename_i ih
    exact .intro trivial (List.forall_mem_singleton.mpr ih)
  | name | qualified | interface | func =>
    exact .intro trivial fun c hc => absurd hc List.not_mem_nil

theorem exists_writes_iff : (∃ n, Writes n t) ↔ t.All Expressible := by
  constructor
  · intro ⟨n, h⟩
    exact h.all_expressible
  · intro h
    obtain ⟨n, -, hn⟩ := exists_writes h none
    exact ⟨n, hn⟩

/-- Reading inverts writing: trees write the expressions that can be written, and whatever writes
    one is read as it, up to the comments of fields. -/
theorem typeExpr_inverts_writing (t : TypeExpr) :
    ((∃ n, Writes n t) ↔ t.All Expressible) ∧
      ∀ n, Writes n t → n.typeExpr.uncommented = t.uncommented := by
  refine ⟨exists_writes_iff, fun n h => ?_⟩
  exact h.uncommented_typeExpr

/-- The type arguments of `Pair[string, *T]`, each with the type that it writes. -/
def pairArgs : List (Node × TypeExpr) :=
  [(branch .typeElem none [leaf .typeIdentifier none "string"], .named "string" []),
   (branch .typeElem none [branch .pointerType none [symbol "*", leaf .typeIdentifier none "T"]],
    .pointer (.named "T" []))]

/-- The type `(Pair[string, *T])` of a field. -/
def pairType : Node :=
  branch .parenthesizedType (some .type) [symbol "(",
    branch .genericType none [leaf .typeIdentifier (some .type) "Pair",
      branch .typeArguments (some .typeArguments)
        (bracketed "[" (symbol ",") (pairArgs.map Prod.fst) "]")],
    symbol ")"]

/-- The type `p.List` of a field. -/
def listType : Node :=
  branch .qualifiedType (some .type) [leaf .packageIdentifier (some .package) "p", symbol ".",
    leaf .typeIdentifier (some .name) "List"]

/-- The field `A, B /* c */ (Pair[string, *T])`. -/
def pairField : FieldTree where
  node := branch .fieldDeclaration none [leaf .fieldIdentifier (some .name) "A", symbol ",",
    leaf .fieldIdentifier (some .name) "B", leaf .comment none "/* c */", pairType]
  inner := pairType
  type := .named "Pair" (pairArgs.map Prod.snd)
  decl := ⟨["A", "B"], .named "Pair" (pairArgs.map Prod.snd), none, {}, false⟩

/-- The field `*p.List "t"`. -/
def listField : FieldTree where
  node := branch .fieldDeclaration none [symbol "*", listType,
    leaf .stringLiteral (some .tag) "\"t\""]
  inner := listType
  type := .qualified "p" "List"
  decl := ⟨["List"], .pointer (.qualified "p" "List"), some "\"t\"", {}, false⟩

/-- A struct of both fields, with a comment after the second one. -/
def pairStruct : Node :=
  branch .structType none [symbol "struct",
    branch .fieldDeclarationList none [symbol "\x7b", pairField.node, leaf .newline none "\n",
      listField.node, leaf .comment none "// d", symbol "\x7d"]]

theorem writes_pairField : Writes pairField.inner pairField.type := by
  have hstring : Writes (branch .typeElem none [leaf .typeIdentifier none "string"])
      (.named "string" []) := .typeElem rfl ⟨rfl, by decide⟩ (.name rfl)
  have hpointer : Writes
      (branch .typeElem none [branch .pointerType none [symbol "*", leaf .typeIdentifier none "T"]])
      (.pointer (.named "T" [])) :=
    .typeElem rfl ⟨rfl, by decide⟩ (.pointer rfl ⟨rfl, by decide⟩ (is_symbol "*") (.name rfl))
  have hlists : (branch .typeArguments (some .typeArguments)
      (bracketed "[" (symbol ",") (pairArgs.map Prod.fst) "]")).Lists "[" [.symbol ","]
        (pairArgs.map Prod.fst) "]" := lists_branch (by decide) rfl (by decide)
  refine .parenthesized rfl ⟨rfl, by decide⟩ (is_symbol "(") (is_symbol ")") ?_
  refine .generic rfl ⟨rfl, by decide⟩ rfl ⟨rfl, rfl⟩ hlists (.name rfl) ?_
  exact List.forall_mem_cons.mpr ⟨hstring, List.forall_mem_singleton.mpr hpointer⟩

theorem sound_pairField : pairField.Sound := by
  have hA : (leaf .fieldIdentifier (some .name) "A").Is .fieldIdentifier (some .name) := ⟨rfl, rfl⟩
  have hB : (leaf .fieldIdentifier (some .name) "B").Is .fieldIdentifier (some .name) := ⟨rfl, rfl⟩
  have hnames : WriteNames [leaf .fieldIdentifier (some .name) "A", symbol ",",
    leaf .fieldIdentifier (some .name) "B"] ["A", "B"] := .cons hA (is_symbol ",") (.last hB)
  exact ⟨rfl, rfl, .named ⟨rfl, by decide⟩ hnames .absent⟩

theorem sound_listField : listField.Sound := by
  have htag : WriteTag [leaf .stringLiteral (some .tag) "\"t\""] (some "\"t\"") :=
    .present ⟨rfl, rfl⟩
  exact ⟨rfl, rfl, .embeddedPointer ⟨rfl, by decide⟩ (is_symbol "*") (.qualified "p" "List") htag⟩

theorem typeExpr_inverts_writing_pairStruct :
    Writes pairStruct (.struct [pairField.decl, listField.decl]) ∧
      pairStruct.typeExpr.uncommented = .struct [pairField.decl, listField.decl] := by
  have hlist : Writes listField.inner listField.type :=
    .qualified rfl (has_branch (by decide)) rfl (is_symbol ".") rfl
  have hlists : (branch .fieldDeclarationList none [symbol "\x7b", pairField.node,
      leaf .newline none "\n", listField.node, leaf .comment none "// d", symbol "\x7d"]).Lists
        "\x7b" [.symbol ";", .newline] ([pairField, listField].map FieldTree.node) "\x7d" :=
    ⟨symbol "\x7b", [pairField.node, leaf .newline none "\n", listField.node],
      symbol "\x7d", ⟨rfl, by decide⟩, rfl, rfl, rfl⟩
  have hstruct : Writes pairStruct (.struct ([pairField, listField].map FieldTree.decl)) := by
    refine .struct rfl ⟨rfl, by decide⟩ (is_symbol "struct") rfl hlists ?_ ?_
    · exact List.forall_mem_cons.mpr
        ⟨sound_pairField, List.forall_mem_singleton.mpr sound_listField⟩
    · exact List.forall_mem_cons.mpr ⟨writes_pairField, List.forall_mem_singleton.mpr hlist⟩
  exact ⟨hstruct, (typeExpr_inverts_writing _).2 _ hstruct⟩

end CallSchema.Go.Node
