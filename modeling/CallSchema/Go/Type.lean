import CallSchema.Go.Attachment
import CallSchema.TypeExpr

/-!
The type expressions that syntax trees write.

* `Node.typeExpr` reads a type. Parentheses, array lengths and channel directions leave no trace,
  and comments are passed over wherever they stand.
* Of several types between bars the first counts; a type of another package loses its type
  arguments.
* `fieldDecl` is a field of a struct. An embedded field is named after its type.
-/

namespace CallSchema.Go

/-- Whether nodes of the kind write types. -/
def Kind.isType : Kind → Bool
  | typeIdentifier | qualifiedType | genericType | pointerType | sliceType | arrayType
  | implicitLengthArrayType | structType | mapType | channelType | interfaceType | functionType
  | parenthesizedType | negatedType | typeElem | typeConstraint => true
  | _ => false

/-- The name of an embedded field of the given type. -/
def embeddedName : TypeExpr → String
  | .named name _ => name
  | .qualified _ name => name
  | e => e.display

/-- A field declaration whose type is already read; without names it is an embedded field, and a
    star makes its type a pointer. -/
def fieldDecl (s : Site) (type : TypeExpr) : FieldDecl :=
  let names := (s.node.childrenOf .fieldIdentifier).map Node.text
  let tag := (s.node.child? .tag).map Node.text
  if names.isEmpty then
    -- The star of an embedded pointer stands beside its type, not in it.
    let star := s.node.children.any (·.kind == .symbol "*")
    { names := [embeddedName type], type := if star then .pointer type else type, tag
      comments := s.comments }
  else
    { names, type, tag, comments := s.comments }

namespace Node

/-- The first child that writes a type. -/
def typeChild? (n : Node) : Option Node := n.children.find? (·.kind.isType)

/-- The children that write types. -/
def typeChildren (n : Node) : List Node := n.children.filter (·.kind.isType)

/-- The fields between the braces of a struct, each among its siblings. -/
def fieldSites (n : Node) : List Site :=
  match n.children.find? (·.kind == .fieldDeclarationList) with
  | none => []
  | some list => (sites list.children).filter (·.node.kind == .fieldDeclaration)

theorem mem_children_of_typeChild? {n c : Node} (h : n.typeChild? = some c) : c ∈ n.children :=
  List.mem_of_find?_eq_some h

theorem sizeOf_lt_of_child? {n c : Node} {role : Role} (h : n.child? role = some c) :
    sizeOf c < sizeOf n :=
  sizeOf_lt_of_mem_children (mem_children_of_child? h)

theorem sizeOf_lt_of_typeChild? {n c : Node} (h : n.typeChild? = some c) :
    sizeOf c < sizeOf n :=
  sizeOf_lt_of_mem_children (mem_children_of_typeChild? h)

theorem sizeOf_lt_of_mem_typeChildren {n c : Node} (h : c ∈ n.typeChildren) :
    sizeOf c < sizeOf n :=
  sizeOf_lt_of_mem_children (List.mem_filter.1 h).1

theorem sizeOf_lt_of_mem_fieldSites {n : Node} {s : Site} (h : s ∈ n.fieldSites) :
    sizeOf s.node < sizeOf n := by
  simp only [fieldSites] at h
  split at h
  · simp at h
  · rename_i list hlist
    have hs := node_mem_of_mem_sites (List.mem_filter.1 h).1
    exact Nat.lt_trans (sizeOf_lt_of_mem_children hs)
      (sizeOf_lt_of_mem_children (List.mem_of_find?_eq_some hlist))

mutual

/-- The type that a node writes; a node that writes none is kept as text. -/
def typeExpr (n : Node) : TypeExpr :=
  match n.kind with
  | .typeIdentifier => .named n.text []
  | .qualifiedType =>
    match n.child? .package, n.child? .name with
    | some package, some name => .qualified package.text name.text
    | _, _ => .other n.text
  | .genericType =>
    match n.typeIn? .type with
    | some (.named name _) => .named name n.typeArguments
    | some (.qualified package name) => .qualified package name
    | _ => .other n.text
  | .pointerType => n.innerType?.elim (.other n.text) .pointer
  | .sliceType => (n.typeIn? .element).elim (.other n.text) .slice
  | .arrayType | .implicitLengthArrayType => (n.typeIn? .element).elim (.other n.text) .array
  | .structType => .struct n.fields
  | .mapType =>
    match n.typeIn? .key, n.typeIn? .value with
    | some key, some value => .map key value
    | _, _ => .other n.text
  | .channelType => (n.typeIn? .value).elim (.other n.text) .chan
  | .interfaceType => .interface
  | .functionType => .func
  | .parenthesizedType | .typeElem | .typeConstraint => n.innerType?.getD (.other n.text)
  | _ => .other n.text
termination_by 2 * sizeOf n + 1

/-- The type that the first child in the role writes. -/
def typeIn? (n : Node) (role : Role) : Option TypeExpr :=
  match h : n.child? role with
  | none => none
  | some c =>
    have := sizeOf_lt_of_child? h
    some c.typeExpr
termination_by 2 * sizeOf n

/-- The type that the first child among the types writes. -/
def innerType? (n : Node) : Option TypeExpr :=
  match h : n.typeChild? with
  | none => none
  | some c =>
    have := sizeOf_lt_of_typeChild? h
    some c.typeExpr
termination_by 2 * sizeOf n

/-- The types in the brackets of an instantiation. -/
def typeArguments (n : Node) : List TypeExpr :=
  match h : n.child? .typeArguments with
  | none => []
  | some list =>
    have := sizeOf_lt_of_child? h
    list.typeChildren.attach.map fun ⟨c, hc⟩ =>
      have := sizeOf_lt_of_mem_typeChildren hc
      c.typeExpr
termination_by 2 * sizeOf n

/-- The fields of a struct in order. -/
def fields (n : Node) : List FieldDecl :=
  n.fieldSites.attach.map fun ⟨s, hs⟩ =>
    have := sizeOf_lt_of_mem_fieldSites hs
    fieldDecl s ((s.node.typeIn? .type).getD (.other s.node.text))
termination_by 2 * sizeOf n

end

theorem typeIn?_eq (n : Node) (role : Role) : n.typeIn? role = (n.child? role).map typeExpr := by
  rw [typeIn?]
  split <;> simp [*]

theorem innerType?_eq (n : Node) : n.innerType? = n.typeChild?.map typeExpr := by
  rw [innerType?]
  split <;> simp [*]

theorem typeArguments_eq (n : Node) :
    n.typeArguments = (n.child? .typeArguments).elim [] (·.typeChildren.map typeExpr) := by
  rw [typeArguments]
  split <;> simp [*]

theorem fields_eq (n : Node) :
    n.fields = n.fieldSites.map fun s =>
      fieldDecl s ((s.node.typeIn? .type).getD (.other s.node.text)) := by
  rw [fields]
  simp

end Node

end CallSchema.Go
