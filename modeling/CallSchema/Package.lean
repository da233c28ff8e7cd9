import CallSchema.TypeExpr

/-!
Declarations of a Go package, file by file.

* `Package.typeDecl?` is the first type declaration of a name, in the order of the units and of the
  declarations in each.
* `functionsNamed` lists the function declarations of a name in the same order, each with the path
  of its unit.
-/

namespace CallSchema

/-- A function declared at the top level of a file. -/
structure FuncDecl where
  name : String
  /-- The comments directly above the declaration. -/
  doc : CommentBlock := {}
  /-- The names of the type parameters. -/
  typeParams : List String := []
  /-- The parameter declarations in order. -/
  params : List FieldDecl := []
  /-- The line of the declaration, counted from one. -/
  line : Nat := 0
deriving Repr

/-- A type declaration, `type N T` or `type N = T`. -/
structure TypeDecl where
  name : String
  typeParams : List String := []
  type : TypeExpr
deriving Repr

/-- A declaration of a function or a type. -/
inductive Decl where
  | func (decl : FuncDecl)
  | type (decl : TypeDecl)
deriving Repr

/-- The function of a declaration, if it declares one. -/
def Decl.func? : Decl → Option FuncDecl
  | .func decl => some decl
  | .type _ => none

/-- The type of a declaration, if it declares one. -/
def Decl.type? : Decl → Option TypeDecl
  | .func _ => none
  | .type decl => some decl

/-- The declarations of one source file in order. -/
structure SourceUnit where
  path : String
  decls : List Decl := []
deriving Repr

/-- The functions that a unit declares. -/
def SourceUnit.functions (unit : SourceUnit) : List FuncDecl := unit.decls.filterMap Decl.func?

/-- The types that a unit declares. -/
def SourceUnit.types (unit : SourceUnit) : List TypeDecl := unit.decls.filterMap Decl.type?

/-- A package: its units in order. -/
structure Package where
  units : List SourceUnit := []
deriving Repr

namespace Package

/-- All type declarations of the package in order. -/
def types (p : Package) : List TypeDecl := p.units.flatMap SourceUnit.types

/-- The names that the package declares as types. -/
def typeNames (p : Package) : List String := p.types.map (·.name)

/-- The declaration that a type name stands for: the first one. -/
def typeDecl? (p : Package) (name : String) : Option TypeDecl := p.types.find? (·.name == name)

theorem mem_typeNames_of_typeDecl? {p : Package} {name : String} {d : TypeDecl}
    (h : p.typeDecl? name = some d) : name ∈ p.typeNames := by
  have hm := List.mem_of_find?_eq_some h
  have hn := List.find?_some h
  simp only [beq_iff_eq] at hn
  exact List.mem_map.2 ⟨d, hm, hn⟩

end Package

/-- The functions with the given name, each with the path of its unit. -/
def functionsNamed (units : List SourceUnit) (name : String) : List (String × FuncDecl) :=
  units.flatMap fun unit => (unit.functions.filter (·.name == name)).map (unit.path, ·)

end CallSchema
