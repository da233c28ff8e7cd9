import CallSchema.Go.Type
import CallSchema.Package

/-!
The declarations of a Go file.

* `SourceUnit.ofTree` collects the functions and types that a file declares at its top level, in
  order. Methods are no functions, and what is declared inside function bodies does not count.
-/

namespace CallSchema.Go

namespace Node

/-- The type of a node in the role of its type. -/
def declaredType (n : Node) : TypeExpr := (n.typeIn? .type).getD (.other n.text)

/-- The names that the type parameters of a declaration have. -/
def typeParameterNames (n : Node) : List String :=
  match n.child? .typeParameters with
  | none => []
  | some list =>
    (list.childrenOf .typeParameterDeclaration).flatMap fun declaration =>
      (declaration.childrenOf .identifier).map Node.text

/-- The type declared by a type specification. -/
def typeDecl? (n : Node) : Option TypeDecl := do
  let name ← n.child? .name
  let type ← n.typeIn? .type
  return { name := name.text, typeParams := n.typeParameterNames, type }

/-- The types that a type declaration declares. -/
def typeDecls (n : Node) : List TypeDecl :=
  (n.children.filter fun c => c.kind == .typeSpec || c.kind == .typeAlias).filterMap typeDecl?

end Node

namespace Site

/-- The declaration of parameters at a site in a parameter list. -/
def parameter? (s : Site) : Option FieldDecl :=
  let declaration (variadic : Bool) : FieldDecl :=
    { names := (s.node.childrenOf .identifier).map Node.text
      type := s.node.declaredType
      comments := s.comments
      variadic }
  match s.node.kind with
  | .parameterDeclaration => some (declaration false)
  | .variadicParameterDeclaration => some (declaration true)
  | _ => none

/-- The function declared at a site. Only the comments above it count. -/
def funcDecl? (s : Site) : Option FuncDecl := do
  let name ← s.node.child? .name
  return {
    name := name.text
    doc := { leading := s.leading.map Node.text }
    typeParams := s.node.typeParameterNames
    params := (s.node.child? .parameters).elim [] fun list =>
      (sites list.children).filterMap parameter?
    line := s.node.firstLine + 1 }

/-- The declarations at a site of the top level. -/
def decls (s : Site) : List Decl :=
  match s.node.kind with
  | .functionDeclaration => s.funcDecl?.toList.map .func
  | .typeDeclaration => s.node.typeDecls.map .type
  | _ => []

end Site

end CallSchema.Go

namespace CallSchema.SourceUnit

open Go

/-- The unit of a file with the given syntax tree. -/
def ofTree (path : String) (file : Node) : SourceUnit :=
  { path, decls := (sites file.children).flatMap Site.decls }

end CallSchema.SourceUnit
