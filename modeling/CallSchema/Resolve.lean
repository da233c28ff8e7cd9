import CallSchema.Error
import CallSchema.Package

/-!
What a type expression is underneath.

* `link` takes one step along a chain of named types: it ends the chain, or goes on with the body
  of a declared type, in which the declaration's parameters are replaced by the arguments.
* `resolve` follows the chain. It enters each declared name at most once, so it ends after at most
  one link more than there are names.
* A package declares names before the language does: `predeclared?` is asked last.
-/

namespace CallSchema

/-- The predeclared types that hold a single value. -/
inductive BasicKind where
  | bool
  | int | int8 | int16 | int32 | int64
  | uint | uint8 | uint16 | uint32 | uint64
  | uintptr
  | float32 | float64
  | complex64 | complex128
  | string
deriving Repr, DecidableEq

/-- What is left of a type expression when its names have been followed. -/
inductive ResolvedType where
  | basic (kind : BasicKind)
  | pointer (pointee : TypeExpr)
  /-- A slice or an array. -/
  | sequence (element : TypeExpr)
  | struct (fields : List FieldDecl)
  /-- A type that no schema describes; the text says which. -/
  | unsupported (what : String)
deriving Repr

/-- The predeclared basic types by name. -/
def basicKinds : List (String × BasicKind) :=
  [("bool", .bool), ("int", .int), ("int8", .int8), ("int16", .int16), ("int32", .int32),
   ("rune", .int32), ("int64", .int64), ("uint", .uint), ("uint8", .uint8), ("byte", .uint8),
   ("uint16", .uint16), ("uint32", .uint32), ("uint64", .uint64), ("uintptr", .uintptr),
   ("float32", .float32), ("float64", .float64), ("complex64", .complex64),
   ("complex128", .complex128), ("string", .string)]

/-- The predeclared interfaces. -/
def predeclaredInterfaces : List String := ["error", "any", "comparable"]

/-- What a predeclared name stands for. -/
def predeclared? (name : String) : Option ResolvedType :=
  match basicKinds.lookup name with
  | some kind => some (.basic kind)
  | none =>
    if predeclaredInterfaces.contains name then some (.unsupported ("interface " ++ name)) else none

/-- One step along a chain of named types. -/
inductive Link where
  | ends (result : Except SchemaError ResolvedType)
  /-- The declared type `name` has the body `body`. -/
  | follows (name : String) (body : TypeExpr)

namespace Package

/-- The body of a declaration with the given arguments for its parameters. The arguments stand in
    the scope of the reference, so its type parameters become opaque in them. -/
def instantiate (d : TypeDecl) (scope : List String) (args : List TypeExpr) : TypeExpr :=
  d.type.substitute d.typeParams (args.map (TypeExpr.substitute scope []))

/-- The next step for an expression in a scope of type parameters. -/
def link (p : Package) (scope : List String) : TypeExpr → Link
  | .named name args =>
    if args.isEmpty ∧ scope.contains name then
      .ends (.ok (.unsupported ("type parameter " ++ name)))
    else
      -- A declaration hides a predeclared type of its name.
      match p.typeDecl? name with
      | some d => .follows name (instantiate d scope args)
      | none =>
        match predeclared? name with
        | some type => .ends (.ok type)
        | none => .ends (.error (.unresolvedType name))
  | .qualified package name =>
    .ends (.ok (.unsupported ("external type " ++ package ++ "." ++ name)))
  | .pointer pointee => .ends (.ok (.pointer pointee))
  | .slice element => .ends (.ok (.sequence element))
  | .array element => .ends (.ok (.sequence element))
  | .struct fields => .ends (.ok (.struct fields))
  | .map _ _ => .ends (.ok (.unsupported "map"))
  | .chan _ => .ends (.ok (.unsupported "channel"))
  | .interface => .ends (.ok (.unsupported "interface"))
  | .func => .ends (.ok (.unsupported "function"))
  | .other text => .ends (.ok (.unsupported text))

/-- The names other than the given one. -/
def without (names : List String) (name : String) : List String := names.filter (· != name)

theorem length_without_lt {names : List String} {name : String} (h : name ∈ names) :
    (without names name).length < names.length :=
  List.length_filter_lt_length_iff_exists.2 ⟨name, h, by simp⟩

/-- Follows the chain from an expression. `fresh` holds the names not entered so far; a chain that
    comes back to a name is no type. -/
def follow (p : Package) (fresh scope : List String) (e : TypeExpr) :
    Except SchemaError ResolvedType :=
  match p.link scope e with
  | .ends result => result
  | .follows name body =>
    if name ∈ fresh then p.follow (without fresh name) [] body
    else .ok (.unsupported ("invalid recursive type " ++ name))
termination_by fresh.length
decreasing_by exact length_without_lt ‹_›

/-- What an expression in a scope of type parameters is underneath. -/
def resolve (p : Package) (scope : List String) (e : TypeExpr) : Except SchemaError ResolvedType :=
  p.follow p.typeNames scope e

end Package

/-- A source of declarations and of the types behind expressions. -/
structure Provider where
  units : List SourceUnit
  /-- What an expression is underneath, given the type parameters in scope. -/
  resolve : (scope : List String) → TypeExpr → Except SchemaError ResolvedType

/-- A package provides what it declares. -/
def Package.provider (p : Package) : Provider := ⟨p.units, p.resolve⟩

end CallSchema
