import CallSchema.Go.Type
import Mathlib.Data.List.Forall2

/-!
Types read back from the trees that write them.

`Node.Writes n t` holds of a node and an expression that it writes: one constructor for each kind of
node, with comments anywhere among the children, and with parentheses around any type in it. What
the expression does not hold is left open: the length of an array, the direction of a channel, the
inside of an interface or of a function. An instance of a type of another package writes no
expression, as its arguments have no place in one.

`Writes.uncommented_typeExpr` says that `Node.typeExpr` gives back the expression, up to the comments
of fields. The comments depend on where the fields stand and are left out by
`TypeExpr.uncommented`.
-/

namespace CallSchema

namespace TypeExpr

/-! ## Expressions without comments -/

mutual

/-- The expression with no comments at its fields. -/
def uncommented : TypeExpr → TypeExpr
  | .named name args => .named name (uncommentedList args)
  | .qualified package name => .qualified package name
  | .pointer pointee => .pointer (uncommented pointee)
  | .slice element => .slice (uncommented element)
  | .array element => .array (uncommented element)
  | .struct fields => .struct (uncommentedFields fields)
  | .map key value => .map (uncommented key) (uncommented value)
  | .chan element => .chan (uncommented element)
  | .interface => .interface
  | .func => .func
  | .other text => .other text
termination_by structural e => e

/-- Each of a list of type arguments without comments. -/
def uncommentedList : List TypeExpr → List TypeExpr
  | [] => []
  | e :: es => uncommented e :: uncommentedList es
termination_by structural es => es

/-- Each of a list of fields without comments. -/
def uncommentedFields : List (FieldOf TypeExpr) → List (FieldOf TypeExpr)
  | [] => []
  | f :: fs => uncommentedField f :: uncommentedFields fs
termination_by structural fs => fs

/-- A field without its comments and those inside its type. -/
def uncommentedField : FieldOf TypeExpr → FieldOf TypeExpr
  | ⟨names, type, tag, _, variadic⟩ => ⟨names, uncommented type, tag, {}, variadic⟩
termination_by structural f => f

end

theorem uncommentedList_eq_map (es : List TypeExpr) :
    uncommentedList es = es.map uncommented := by
  induction es with
  | nil => rfl
  | cons e es ih => rw [uncommentedList, ih, List.map_cons]

theorem uncommentedFields_eq_map (fs : List FieldDecl) :
    uncommentedFields fs = fs.map uncommentedField := by
  induction fs with
  | nil => rfl
  | cons f fs ih => rw [uncommentedFields, ih, List.map_cons]

theorem uncommented_named (name : String) (args : List TypeExpr) :
    (named name args).uncommented = .named name (args.map uncommented) := by
  rw [uncommented, uncommentedList_eq_map]

theorem uncommented_struct (fields : List FieldDecl) :
    (struct fields).uncommented = .struct (fields.map uncommentedField) := by
  rw [uncommented, uncommentedFields_eq_map]

theorem eq_named_of_uncommented {e : TypeExpr} {name : String} {args : List TypeExpr}
    (h : e.uncommented = .named name args) : ∃ own, e = .named name own := by
  cases e with
  | named head own => exact ⟨own, by rw [(named.inj h).1]⟩
  | _ => cases h

theorem eq_qualified_of_uncommented {e : TypeExpr} {package name : String}
    (h : e.uncommented = .qualified package name) : e = .qualified package name := by
  cases e with
  | qualified => exact h
  | _ => cases h

end TypeExpr

namespace Go

open TypeExpr (uncommented uncommentedField)

/-! ## Children among comments -/

namespace Node

/-- The node has the kind and plays the role in its parent. -/
structure Is (n : Node) (kind : Kind) (role : Option Role) : Prop where
  kind : n.kind = kind
  role : n.role = role

/-- The children of the node are the parts, in order and with comments anywhere among them. Comments
    play no role. -/
structure Has (n : Node) (parts : List Node) : Prop where
  parts : n.children.filter (!·.isComment) = parts
  comments : ∀ c ∈ n.children, c.isComment = true → c.role = none

/-- The children of the node are an opening symbol, the items, and a closing symbol, with nodes of
    the given kinds anywhere among the items. -/
def Lists (n : Node) (opening : String) (separators : List Kind) (items : List Node)
    (closing : String) : Prop :=
  ∃ first inner last, n.Has (first :: inner ++ [last]) ∧
    first.kind = .symbol opening ∧ last.kind = .symbol closing ∧
    inner.filter (!separators.contains ·.kind) = items

/-- The nodes are the symbols in order, and play no role. -/
def AreSymbols (texts : List String) (nodes : List Node) : Prop :=
  List.Forall₂ (fun text n => n.Is (.symbol text) none) texts nodes

variable {n c : Node} {parts before after : List Node}

/-- What looks for nothing that a comment is finds the same among the parts. -/
theorem Has.filter (h : n.Has parts) {p : Node → Bool}
    (hp : ∀ c, c.isComment = true → c.role = none → p c = false) :
    n.children.filter p = parts.filter p := by
  rw [← h.parts, List.filter_filter]
  refine List.filter_congr fun c hc => ?_
  cases hcomment : c.isComment with
  | true => rw [hp c hcomment (h.comments c hc hcomment), Bool.false_and]
  | false => rw [Bool.not_false, Bool.and_true]

theorem Has.find? (h : n.Has parts) {p : Node → Bool}
    (hp : ∀ c, c.isComment = true → c.role = none → p c = false) :
    n.children.find? p = parts.find? p := by
  rw [← List.head?_filter, h.filter hp, List.head?_filter]

theorem find?_append_of_false {p : Node → Bool} (hbefore : ∀ b ∈ before, p b = false) :
    (before ++ after).find? p = after.find? p := by
  rw [List.find?_append, List.find?_eq_none.mpr fun b hb => by simp [hbefore b hb],
    Option.none_or]

theorem Has.child?_eq (h : n.Has parts) (role : Role) :
    n.child? role = parts.find? (·.role == some role) :=
  h.find? fun c _ hrole => by rw [hrole]; rfl

/-- The first child in a role. -/
theorem Has.child? (h : n.Has (before ++ c :: after)) {role : Role}
    (hbefore : ∀ b ∈ before, b.role ≠ some role) (hc : c.role = some role) :
    n.child? role = some c := by
  rw [h.child?_eq, find?_append_of_false fun b hb => by simpa using hbefore b hb]
  exact List.find?_cons_of_pos (by simpa using hc)

/-- The type in a role. -/
theorem Has.typeIn? (h : n.Has (before ++ c :: after)) {role : Role}
    (hbefore : ∀ b ∈ before, b.role ≠ some role) (hc : c.role = some role) :
    n.typeIn? role = some c.typeExpr := by
  rw [typeIn?_eq, h.child? hbefore hc, Option.map_some]

theorem isType_of_isComment (h : c.isComment = true) : c.kind.isType = false := by
  rw [eq_of_beq h]
  rfl

/-- The type among symbols. -/
theorem Has.innerType? (h : n.Has (before ++ c :: after))
    (hbefore : ∀ b ∈ before, b.kind.isType = false) (hc : c.kind.isType = true) :
    n.innerType? = some c.typeExpr := by
  rw [innerType?_eq, typeChild?, h.find? fun c hcomment _ => isType_of_isComment hcomment,
    find?_append_of_false hbefore]
  exact congrArg (Option.map Node.typeExpr) (List.find?_cons_of_pos hc)

/-- What looks neither for symbols nor for separators finds the items of a list. -/
theorem Lists.filter {opening closing : String} {separators : List Kind} {items : List Node}
    (h : n.Lists opening separators items closing) {q : Kind → Bool} (hcomment : q .comment = false)
    (hsymbol : ∀ text, q (.symbol text) = false) (hseparator : ∀ k ∈ separators, q k = false) :
    n.children.filter (q ·.kind) = items.filter (q ·.kind) := by
  obtain ⟨first, inner, last, hhas, hfirst, hlast, rfl⟩ := h
  rw [hhas.filter fun c hc _ => by rw [eq_of_beq hc, hcomment], List.filter_append,
    List.filter_cons_of_neg (by rw [hfirst, hsymbol]; decide),
    List.filter_cons_of_neg (by rw [hlast, hsymbol]; decide), List.filter_nil, List.append_nil,
    List.filter_filter]
  refine List.filter_congr fun c _ => ?_
  by_cases hc : c.kind ∈ separators
  · rw [hseparator _ hc, Bool.false_and]
  · simp [hc]

theorem AreSymbols.role_ne {texts : List String} {nodes : List Node} (h : AreSymbols texts nodes)
    (role : Role) : ∀ b ∈ nodes, b.role ≠ some role := by
  induction h with
  | nil => exact fun b hb => absurd hb List.not_mem_nil
  | cons hb _ ih => exact List.forall_mem_cons.mpr ⟨by simp [hb.role], ih⟩

/-! ## Trees that write types -/

/-- The nodes are the names of fields with commas between them. -/
inductive WriteNames : List Node → List String → Prop
  | last {n : Node} (h : n.Is .fieldIdentifier (some .name)) : WriteNames [n] [n.text]
  | cons {n comma : Node} {nodes : List Node} {names : List String}
      (h : n.Is .fieldIdentifier (some .name)) (hcomma : comma.Is (.symbol ",") none)
      (rest : WriteNames nodes names) : WriteNames (n :: comma :: nodes) (n.text :: names)

/-- The nodes are a tag, or there are none. -/
inductive WriteTag : List Node → Option String → Prop
  | absent : WriteTag [] none
  | present {n : Node} (h : n.Is .stringLiteral (some .tag)) : WriteTag [n] (some n.text)

/-- The name of the type, without its package and its type arguments. -/
inductive IsNameOf : TypeExpr → String → Prop
  | named (name : String) (args : List TypeExpr) : IsNameOf (.named name args) name
  | qualified (package name : String) : IsNameOf (.qualified package name) name

/-- The node declares the field, where the inner node writes the type `t`. -/
inductive Declares (n inner : Node) (t : TypeExpr) : FieldDecl → Prop
  | named {nodes tags : List Node} {names : List String} {tag : Option String}
      {comments : CommentBlock} (parts : n.Has (nodes ++ inner :: tags))
      (hnames : WriteNames nodes names) (htag : WriteTag tags tag) :
      Declares n inner t ⟨names, t, tag, comments, false⟩
  | embedded {tags : List Node} {name : String} {tag : Option String} {comments : CommentBlock}
      (parts : n.Has (inner :: tags)) (hname : IsNameOf t name) (htag : WriteTag tags tag) :
      Declares n inner t ⟨[name], t, tag, comments, false⟩
  | embeddedPointer {star : Node} {tags : List Node} {name : String} {tag : Option String}
      {comments : CommentBlock} (parts : n.Has (star :: inner :: tags))
      (hstar : star.Is (.symbol "*") none) (hname : IsNameOf t name) (htag : WriteTag tags tag) :
      Declares n inner t ⟨[name], .pointer t, tag, comments, false⟩

/-- A field of a struct: its node, the node of its type, the type and the declaration. -/
structure FieldTree where
  node : Node
  inner : Node
  type : TypeExpr
  decl : FieldDecl

/-- The node of a field declares it, if the inner node writes its type. -/
structure FieldTree.Sound (f : FieldTree) : Prop where
  kind : f.node.kind = .fieldDeclaration
  role : f.inner.role = some .type
  declares : Declares f.node f.inner f.type f.decl

/-- The node writes the type. -/
inductive Writes : Node → TypeExpr → Prop
  | name {n : Node} (kind : n.kind = .typeIdentifier) : Writes n (.named n.text [])
  | qualified {n package dot name : Node} (kind : n.kind = .qualifiedType)
      (parts : n.Has [package, dot, name]) (hpackage : package.role = some .package)
      (hdot : dot.Is (.symbol ".") none) (hname : name.role = some .name) :
      Writes n (.qualified package.text name.text)
  | generic {n base list : Node} {name : String} {args : List (Node × TypeExpr)}
      (kind : n.kind = .genericType) (parts : n.Has [base, list])
      (hbase : base.role = some .type) (hlist : list.Is .typeArguments (some .typeArguments))
      (listed : list.Lists "[" [.symbol ","] (args.map Prod.fst) "]")
      (head : Writes base (.named name [])) (each : ∀ arg ∈ args, Writes arg.1 arg.2) :
      Writes n (.named name (args.map Prod.snd))
  | typeElem {n inner : Node} {t : TypeExpr} (kind : n.kind = .typeElem) (parts : n.Has [inner])
      (inside : Writes inner t) : Writes n t
  | parenthesized {n opening inner closing : Node} {t : TypeExpr}
      (kind : n.kind = .parenthesizedType) (parts : n.Has [opening, inner, closing])
      (hopening : opening.Is (.symbol "(") none) (hclosing : closing.Is (.symbol ")") none)
      (inside : Writes inner t) : Writes n t
  | pointer {n star inner : Node} {t : TypeExpr} (kind : n.kind = .pointerType)
      (parts : n.Has [star, inner]) (hstar : star.Is (.symbol "*") none)
      (inside : Writes inner t) : Writes n (.pointer t)
  | slice {n inner : Node} {brackets : List Node} {t : TypeExpr} (kind : n.kind = .sliceType)
      (parts : n.Has (brackets ++ [inner])) (hbrackets : AreSymbols ["[", "]"] brackets)
      (role : inner.role = some .element) (inside : Writes inner t) : Writes n (.slice t)
  | array {n opening length closing inner : Node} {t : TypeExpr} (kind : n.kind = .arrayType)
      (parts : n.Has [opening, length, closing, inner])
      (hopening : opening.Is (.symbol "[") none) (hlength : length.role ≠ some .element)
      (hclosing : closing.Is (.symbol "]") none) (role : inner.role = some .element)
      (inside : Writes inner t) : Writes n (.array t)
  | implicitArray {n inner : Node} {brackets : List Node} {t : TypeExpr}
      (kind : n.kind = .implicitLengthArrayType) (parts : n.Has (brackets ++ [inner]))
      (hbrackets : AreSymbols ["[", "...", "]"] brackets) (role : inner.role = some .element)
      (inside : Writes inner t) : Writes n (.array t)
  | map {n key value : Node} {opening closing : List Node} {k v : TypeExpr}
      (kind : n.kind = .mapType) (parts : n.Has (opening ++ key :: (closing ++ [value])))
      (hopening : AreSymbols ["map", "["] opening) (hclosing : AreSymbols ["]"] closing)
      (hkey : key.role = some .key) (hvalue : value.role = some .value)
      (keyInside : Writes key k) (valueInside : Writes value v) : Writes n (.map k v)
  | channel {n inner : Node} {words : List String} {symbols : List Node} {t : TypeExpr}
      (kind : n.kind = .channelType) (parts : n.Has (symbols ++ [inner]))
      (hwords : words ∈ [["chan"], ["chan", "<-"], ["<-", "chan"]])
      (hsymbols : AreSymbols words symbols) (role : inner.role = some .value)
      (inside : Writes inner t) : Writes n (.chan t)
  | interface {n : Node} (kind : n.kind = .interfaceType) : Writes n .interface
  | func {n : Node} (kind : n.kind = .functionType) : Writes n .func
  | struct {n word list : Node} {fields : List FieldTree} (kind : n.kind = .structType)
      (parts : n.Has [word, list]) (hword : word.Is (.symbol "struct") none)
      (hlist : list.kind = .fieldDeclarationList)
      (listed : list.Lists "\x7b" [.symbol ";", .newline] (fields.map FieldTree.node) "\x7d")
      (sound : ∀ f ∈ fields, f.Sound) (each : ∀ f ∈ fields, Writes f.inner f.type) :
      Writes n (.struct (fields.map FieldTree.decl))

variable {t : TypeExpr}

theorem Writes.isType (h : Writes n t) : n.kind.isType = true := by
  cases h <;> simp [*, Kind.isType]

/-! ## Reading fields -/

theorem Has.childrenOf (h : n.Has parts) {kind : Kind} (hkind : kind ≠ .comment) :
    n.childrenOf kind = parts.filter (·.kind == kind) := by
  refine h.filter fun c hc _ => ?_
  rw [eq_of_beq hc]
  exact beq_false_of_ne hkind.symm

theorem any_kind (n : Node) (kind : Kind) :
    n.children.any (·.kind == kind) = !(n.childrenOf kind).isEmpty := by
  rw [Bool.eq_iff_iff]
  simp [childrenOf]

theorem WriteNames.texts {nodes : List Node} {names : List String} (h : WriteNames nodes names) :
    (nodes.filter (·.kind == .fieldIdentifier)).map text = names := by
  induction h with
  | last h => simp [h.kind]
  | cons h hcomma _ ih => simp [h.kind, hcomma.kind, ih]

theorem WriteNames.ne_nil {nodes : List Node} {names : List String} (h : WriteNames nodes names) :
    names ≠ [] := by
  cases h <;> exact List.cons_ne_nil _ _

theorem WriteNames.role_ne {nodes : List Node} {names : List String} (h : WriteNames nodes names)
    {role : Role} (hrole : role ≠ .name) : ∀ b ∈ nodes, b.role ≠ some role := by
  induction h with
  | last h => simpa [h.role] using hrole.symm
  | cons h hcomma _ ih => simpa [h.role, hcomma.role, hrole.symm] using ih

theorem WriteTag.filter_kind {tags : List Node} {tag : Option String} (h : WriteTag tags tag)
    {kind : Kind} (hkind : kind ≠ .stringLiteral) : tags.filter (·.kind == kind) = [] := by
  cases h with
  | absent => rfl
  | present h => simp [h.kind, hkind.symm]

theorem WriteTag.text {tags : List Node} {tag : Option String} (h : WriteTag tags tag) :
    (tags.find? (·.role == some .tag)).map Node.text = tag := by
  cases h with
  | absent => rfl
  | present h => simp [h.role]

section Declaration

variable {inner : Node} {tags : List Node} {tag : Option String}

/-- Nothing but what stands before the type of a field can be its names or its star. -/
theorem Has.childrenOf_field (h : n.Has (before ++ inner :: tags))
    (hinner : inner.kind.isType = true) (htag : WriteTag tags tag) {kind : Kind}
    (hkind : kind.isType = false) (hne : kind ≠ .comment ∧ kind ≠ .stringLiteral) :
    n.childrenOf kind = before.filter (·.kind == kind) := by
  have hkinds : inner.kind ≠ kind := fun he => by simp [he, hkind] at hinner
  rw [h.childrenOf hne.1, List.filter_append, List.filter_cons_of_neg (by simpa using hkinds),
    htag.filter_kind hne.2, List.append_nil]

theorem Has.tag_field (h : n.Has (before ++ inner :: tags)) (hrole : inner.role = some .type)
    (htag : WriteTag tags tag) (hbefore : ∀ b ∈ before, b.role ≠ some .tag) :
    (n.child? .tag).map text = tag := by
  rw [h.child?_eq, find?_append_of_false fun b hb => by simpa using hbefore b hb,
    List.find?_cons_of_neg (by simp [hrole]), htag.text]

end Declaration

theorem IsNameOf.embeddedName {e : TypeExpr} {name : String} (h : IsNameOf t name)
    (he : e.uncommented = t.uncommented) : embeddedName e = name := by
  cases h with
  | named name args =>
    rw [TypeExpr.uncommented_named] at he
    obtain ⟨own, rfl⟩ := TypeExpr.eq_named_of_uncommented he
    rfl
  | qualified package name =>
    obtain rfl := TypeExpr.eq_qualified_of_uncommented he
    rfl

theorem fieldDecl_of_names {s : Site} {names : List String} (e : TypeExpr)
    (h : (s.node.childrenOf .fieldIdentifier).map text = names) (hne : names ≠ []) :
    fieldDecl s e = ⟨names, e, (s.node.child? .tag).map text, s.comments, false⟩ := by
  rw [fieldDecl, h]
  simp [hne]

theorem fieldDecl_of_none {s : Site} (e : TypeExpr)
    (h : s.node.childrenOf .fieldIdentifier = []) :
    fieldDecl s e = ⟨[embeddedName e], if (s.node.childrenOf (.symbol "*")).isEmpty then e
      else .pointer e, (s.node.child? .tag).map text, s.comments, false⟩ := by
  rw [fieldDecl, h, any_kind]
  cases (s.node.childrenOf (.symbol "*")).isEmpty <;> rfl

/-- The field read from a declaration is the field declared. -/
theorem Declares.uncommented_fieldDecl {inner : Node} {f : FieldDecl} {e : TypeExpr}
    {s : Site} (h : Declares s.node inner t f) (hinner : inner.kind.isType = true)
    (hrole : inner.role = some .type) (he : e.uncommented = t.uncommented) :
    uncommentedField (fieldDecl s e) = uncommentedField f := by
  cases h with
  | @named nodes tags names tag comments parts hnames htag =>
    have hchildren : (s.node.childrenOf .fieldIdentifier).map text = names := by
      rw [parts.childrenOf_field hinner htag rfl (by decide), hnames.texts]
    rw [fieldDecl_of_names e hchildren hnames.ne_nil,
      parts.tag_field hrole htag (hnames.role_ne (by decide))]
    simp only [uncommentedField, he]
  | @embedded tags name tag comments parts hname htag =>
    have hparts : s.node.Has ([] ++ inner :: tags) := parts
    have hnone : s.node.childrenOf .fieldIdentifier = [] :=
      hparts.childrenOf_field hinner htag rfl (by decide)
    have hstars : s.node.childrenOf (.symbol "*") = [] :=
      hparts.childrenOf_field hinner htag rfl (by decide)
    rw [fieldDecl_of_none e hnone, hstars, hparts.tag_field hrole htag (by simp),
      hname.embeddedName he]
    simp [uncommentedField, he]
  | @embeddedPointer star tags name tag comments parts hstar hname htag =>
    have hparts : s.node.Has ([star] ++ inner :: tags) := parts
    have hnone : s.node.childrenOf .fieldIdentifier = [] := by
      rw [hparts.childrenOf_field hinner htag rfl (by decide)]
      simp [hstar.kind]
    have hstars : s.node.childrenOf (.symbol "*") = [star] := by
      rw [hparts.childrenOf_field hinner htag rfl (by decide)]
      simp [hstar.kind]
    rw [fieldDecl_of_none e hnone, hstars, hparts.tag_field hrole htag (by simp [hstar.role]),
      hname.embeddedName he]
    simp [uncommentedField, uncommented, he]

theorem Declares.typeIn? {inner : Node} {f : FieldDecl} (h : Declares n inner t f)
    (hrole : inner.role = some .type) : n.typeIn? .type = some inner.typeExpr := by
  cases h with
  | named parts hnames htag => exact parts.typeIn? (hnames.role_ne (by decide)) hrole
  | @embedded tags _ _ _ parts hname htag =>
    have hparts : n.Has ([] ++ inner :: tags) := parts
    exact hparts.typeIn? (by simp) hrole
  | @embeddedPointer star tags _ _ _ parts hstar hname htag =>
    have hparts : n.Has ([star] ++ inner :: tags) := parts
    exact hparts.typeIn? (by simp [hstar.role]) hrole

/-- Where a field stands matters for its comments only. -/
theorem uncommentedField_fieldDecl (s : Site) (e : TypeExpr) :
    uncommentedField (fieldDecl s e) = uncommentedField (fieldDecl ⟨[], s.node, []⟩ e) := by
  rw [fieldDecl, fieldDecl]
  split <;> rfl

/-- The field that a node declares, apart from its comments. -/
def fieldOf (n : Node) : FieldDecl :=
  uncommentedField (fieldDecl ⟨[], n, []⟩ ((n.typeIn? .type).getD (.other n.text)))

theorem FieldTree.Sound.fieldOf_node {f : FieldTree} (h : f.Sound)
    (hinner : f.inner.kind.isType = true)
    (he : f.inner.typeExpr.uncommented = f.type.uncommented) :
    fieldOf f.node = uncommentedField f.decl := by
  rw [fieldOf, h.declares.typeIn? h.role, Option.getD_some]
  exact Declares.uncommented_fieldDecl (s := ⟨[], f.node, []⟩) h.declares hinner h.role he

theorem map_uncommentedField_fields {list : Node} (h : n.Has (before ++ list :: after))
    (hbefore : ∀ b ∈ before, b.kind ≠ .fieldDeclarationList)
    (hlist : list.kind = .fieldDeclarationList) :
    n.fields.map uncommentedField =
      (list.children.filter (·.kind == .fieldDeclaration)).map fieldOf := by
  have hfind : n.children.find? (·.kind == .fieldDeclarationList) = some list := by
    rw [h.find? fun c hc _ => by rw [eq_of_beq hc]; rfl,
      find?_append_of_false fun b hb => by simpa using hbefore b hb]
    exact List.find?_cons_of_pos (by simp [hlist])
  have hsites : n.fieldSites.map Site.node =
      list.children.filter (·.kind == .fieldDeclaration) := by
    rw [fieldSites, hfind]
    conv => rhs; rw [← map_node_sites list.children, List.filter_map]
    rfl
  rw [fields_eq, ← hsites, List.map_map, List.map_map]
  exact List.map_congr_left fun s _ => uncommentedField_fieldDecl s _

/-! ## Reading types -/

/-- What is read from a tree is what the tree writes, by induction on how it writes it: the parts of
    a node say which child each lookup finds. -/
theorem Writes.uncommented_typeExpr (h : Writes n t) :
    n.typeExpr.uncommented = t.uncommented := by
  induction h with
  | name kind => rw [typeExpr, kind]
  | @qualified n package dot name kind parts hpackage hdot hname =>
    have hfirst : n.Has ([] ++ package :: [dot, name]) := parts
    have hlast : n.Has ([package, dot] ++ name :: []) := parts
    rw [typeExpr, kind]
    simp only [hfirst.child? (by simp) hpackage,
      hlast.child? (by simp [hpackage, hdot.role]) hname]
  | @generic n base list name args kind parts hbase hlist listed head each ihhead iheach =>
    have hfirst : n.Has ([] ++ base :: [list]) := parts
    have hlast : n.Has ([base] ++ list :: []) := parts
    have hargs : n.typeArguments = args.map (·.1.typeExpr) := by
      rw [typeArguments_eq, hlast.child? (by simp [hbase]) hlist.role, Option.elim_some,
        typeChildren, listed.filter rfl (fun _ => rfl) (by simp [Kind.isType]),
        List.filter_eq_self.mpr ?_, List.map_map]
      · rfl
      · intro c hc
        obtain ⟨arg, harg, rfl⟩ := List.mem_map.mp hc
        exact (each arg harg).isType
    -- Only the name of the base counts: the arguments that reading gives it are replaced.
    rw [TypeExpr.uncommented_named] at ihhead
    obtain ⟨own, hown⟩ := TypeExpr.eq_named_of_uncommented ihhead
    rw [typeExpr, kind]
    simp only [hfirst.typeIn? (by simp) hbase, hown, hargs, TypeExpr.uncommented_named,
      List.map_map]
    exact congrArg (TypeExpr.named name) (List.map_congr_left iheach)
  | @typeElem n inner t kind parts inside ih =>
    have hinner : n.Has ([] ++ inner :: []) := parts
    rw [typeExpr, kind]
    simp only [hinner.innerType? (by simp) inside.isType, Option.getD_some, ih]
  | @parenthesized n opening inner closing t kind parts hopening hclosing inside ih =>
    have hinner : n.Has ([opening] ++ inner :: [closing]) := parts
    rw [typeExpr, kind]
    simp only [hinner.innerType? (by simp [hopening.kind, Kind.isType]) inside.isType,
      Option.getD_some, ih]
  | @pointer n star inner t kind parts hstar inside ih =>
    have hinner : n.Has ([star] ++ inner :: []) := parts
    rw [typeExpr, kind]
    simp only [hinner.innerType? (by simp [hstar.kind, Kind.isType]) inside.isType,
      Option.elim_some, uncommented, ih]
  | slice kind parts hbrackets role inside ih =>
    rw [typeExpr, kind]
    simp only [parts.typeIn? (hbrackets.role_ne _) role, Option.elim_some, uncommented, ih]
  | @array n opening length closing inner t kind parts hopening hlength hclosing role inside ih =>
    have hinner : n.Has ([opening, length, closing] ++ inner :: []) := parts
    rw [typeExpr, kind]
    simp only [hinner.typeIn? (by simp [hopening.role, hlength, hclosing.role]) role,
      Option.elim_some, uncommented, ih]
  | implicitArray kind parts hbrackets role inside ih =>
    rw [typeExpr, kind]
    simp only [parts.typeIn? (hbrackets.role_ne _) role, Option.elim_some, uncommented, ih]
  | @map n key value opening closing k v kind parts hopening hclosing hkey hvalue keyInside
      valueInside ihkey ihvalue =>
    have hlast : n.Has ((opening ++ key :: closing) ++ value :: []) := by
      rw [List.append_assoc]
      exact parts
    have hbefore : ∀ b ∈ opening ++ key :: closing, b.role ≠ some .value := by
      intro b hb
      rcases List.mem_append.mp hb with hb | hb
      · exact hopening.role_ne _ b hb
      · rcases List.mem_cons.mp hb with rfl | hb
        · simp [hkey]
        · exact hclosing.role_ne _ b hb
    rw [typeExpr, kind]
    simp only [parts.typeIn? (hopening.role_ne _) hkey, hlast.typeIn? hbefore hvalue, uncommented,
      ihkey, ihvalue]
  | channel kind parts hwords hsymbols role inside ih =>
    rw [typeExpr, kind]
    simp only [parts.typeIn? (hsymbols.role_ne _) role, Option.elim_some, uncommented, ih]
  | interface kind => rw [typeExpr, kind]
  | func kind => rw [typeExpr, kind]
  | @struct n word list fields kind parts hword hlist listed sound each iheach =>
    have hparts : n.Has ([word] ++ list :: []) := parts
    have hfields : list.children.filter (·.kind == .fieldDeclaration) =
        fields.map FieldTree.node := by
      rw [listed.filter (q := (· == .fieldDeclaration)) rfl (fun _ => rfl) (by decide)]
      refine List.filter_eq_self.mpr fun c hc => ?_
      obtain ⟨f, hf, rfl⟩ := List.mem_map.mp hc
      exact beq_of_eq (sound f hf).kind
    rw [typeExpr, kind]
    simp only [TypeExpr.uncommented_struct,
      map_uncommentedField_fields hparts (by simp [hword.kind]) hlist, hfields, List.map_map]
    refine congrArg TypeExpr.struct (List.map_congr_left fun f hf => ?_)
    exact (sound f hf).fieldOf_node (each f hf).isType (iheach f hf)

end Node

end Go

end CallSchema
