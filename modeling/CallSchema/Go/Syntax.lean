import CallSchema.Go.Lexeme
import CallSchema.Text.Blank
import CallSchema.Text.Pieces

/-!
Syntax trees of Go source.

* A `Node` has a kind, the text it covers, its place and its children in order. Symbols, reserved
  words and comments are nodes too, so that the children of a node are everything that stands
  inside it, white space apart.
* A node may play a role in its parent; `Node.child?` is the first child in a role.
* `Node.firstFault?` is the first node of a tree, in the order of the text, that stands for a syntax
  error (`firstFault?_eq`); `Node.complaint` is what is wrong there.
-/

namespace CallSchema.Go

/-- The kinds of nodes. -/
inductive Kind where
  | comment
  /-- A symbol or a reserved word, named by its text. -/
  | symbol (text : String)
  /-- The end of a line, where a tree keeps it. The grammar of this library makes no such nodes. -/
  | newline
  | sourceFile
  | packageClause
  | importDeclaration
  | importSpec
  | constDeclaration
  | varDeclaration
  | valueSpec
  | functionDeclaration
  | methodDeclaration
  | typeDeclaration
  | typeSpec
  | typeAlias
  | typeParameterList
  | typeParameterDeclaration
  | typeConstraint
  | parameterList
  | parameterDeclaration
  | variadicParameterDeclaration
  | fieldDeclarationList
  | fieldDeclaration
  | identifier
  | typeIdentifier
  | fieldIdentifier
  | packageIdentifier
  | qualifiedType
  | genericType
  | typeArguments
  /-- A type argument, or a type in a constraint: one or more types between bars. -/
  | typeElem
  | pointerType
  | sliceType
  | arrayType
  | implicitLengthArrayType
  | structType
  | mapType
  | channelType
  | interfaceType
  | methodElem
  | functionType
  | parenthesizedType
  | negatedType
  | stringLiteral
  | numberLiteral
  | runeLiteral
  | expression
  | literalValue
  | statement
  | block
  /-- A text that is no Go. -/
  | error
  /-- What is missing at a place, as a node without text. -/
  | missing (name : String)
deriving Repr, DecidableEq, Inhabited

/-- Whether nodes of the kind stand for a syntax error. -/
def Kind.isFault : Kind → Bool
  | error | missing _ => true
  | _ => false

/-- The roles that a node can play in its parent. -/
inductive Role where
  | name
  | package
  | type
  | typeParameters
  | typeArguments
  | parameters
  | element
  | key
  | value
  | tag
deriving Repr, DecidableEq

/-- A syntax tree. -/
structure Node where
  kind : Kind
  role : Option Role := none
  /-- The source from the first character of the node to its last. -/
  text : String
  span : Span
  children : List Node := []
deriving Repr, Inhabited

namespace Node

/-- The line on which the node begins, counted from zero. -/
def firstLine (n : Node) : Nat := n.span.start.line

/-- The line on which the node ends. -/
def lastLine (n : Node) : Nat := n.span.stop.line

def isComment (n : Node) : Bool := n.kind == .comment

/-- The first child in the role. -/
def child? (n : Node) (role : Role) : Option Node := n.children.find? (·.role == some role)

/-- The children of the kind in order. -/
def childrenOf (n : Node) (kind : Kind) : List Node := n.children.filter (·.kind == kind)

theorem sizeOf_lt_of_mem_children {n c : Node} (h : c ∈ n.children) : sizeOf c < sizeOf n := by
  have := List.sizeOf_lt_of_mem h
  cases n
  simp_all only [Node.mk.sizeOf_spec]
  omega

theorem mem_children_of_child? {n c : Node} {role : Role} (h : n.child? role = some c) :
    c ∈ n.children :=
  List.mem_of_find?_eq_some h

/-- The first node of the tree that stands for a syntax error; a node comes before its children. -/
def firstFault? (n : Node) : Option Node :=
  if n.kind.isFault then some n
  else n.children.attach.findSome? fun ⟨c, hc⟩ =>
    have := sizeOf_lt_of_mem_children hc
    c.firstFault?
termination_by sizeOf n

theorem firstFault?_eq (n : Node) :
    n.firstFault? = if n.kind.isFault then some n else n.children.findSome? firstFault? := by
  rw [firstFault?]
  simp

/-- What is wrong at a node that stands for a syntax error: a name that is missing, or else the
    beginning of the first line of a text that is no Go. -/
def complaint (n : Node) : String :=
  match n.kind with
  | .missing name => "missing `" ++ name ++ "`"
  | _ =>
    let line := (Text.lines n.text.toList).headD []
    "unexpected `" ++ String.ofList ((Text.trim line).take 40) ++ "`"

end Node

end CallSchema.Go
