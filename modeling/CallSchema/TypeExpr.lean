import CallSchema.Comment

/-!
Type expressions of Go and the declarations of fields and parameters.

* `TypeExpr.display` is the text of a type expression; it leaves out array lengths and the insides
  of structs, interfaces and functions.
* `TypeExpr.substitute` replaces the references to type parameters by type arguments, all at once.
-/

namespace CallSchema

/-- A declaration of fields or parameters that share one type of sort `τ`. -/
structure FieldOf (τ : Type) where
  /-- The names in order; no name if the type stands alone in a parameter list. -/
  names : List String
  type : τ
  /-- The tag literal as it stands in source, with its quotes. -/
  tag : Option String := none
  comments : CommentBlock := {}
  /-- Whether the type is written `...T`. -/
  variadic : Bool := false
deriving Repr, DecidableEq, Inhabited

/-- A type expression as written in source. -/
inductive TypeExpr where
  /-- `N`, or `N[A, B]` with type arguments. -/
  | named (name : String) (args : List TypeExpr)
  /-- `P.N`, a type of another package. -/
  | qualified (package name : String)
  | pointer (pointee : TypeExpr)
  | slice (element : TypeExpr)
  | array (element : TypeExpr)
  | struct (fields : List (FieldOf TypeExpr))
  | map (key value : TypeExpr)
  | chan (element : TypeExpr)
  | interface
  | func
  /-- Any other expression, kept as text. -/
  | other (text : String)
deriving Repr, Inhabited

/-- A declaration of fields or parameters. -/
abbrev FieldDecl := FieldOf TypeExpr

namespace TypeExpr

/-! ## Text -/

mutual

/-- The text of a type expression. -/
def display : TypeExpr → String
  | .named name args => if args.isEmpty then name else name ++ "[" ++ displayList args ++ "]"
  | .qualified package name => package ++ "." ++ name
  | .pointer pointee => "*" ++ display pointee
  | .slice element => "[]" ++ display element
  | .array element => "[N]" ++ display element
  | .struct _ => "struct\x7b...\x7d"
  | .map key value => "map[" ++ display key ++ "]" ++ display value
  | .chan element => "chan " ++ display element
  | .interface => "interface\x7b...\x7d"
  | .func => "func(...)"
  | .other text => text
termination_by structural e => e

/-- The texts of type arguments, separated by a comma and a space. -/
def displayList : List TypeExpr → String
  | [] => ""
  | [arg] => display arg
  | arg :: next :: args => display arg ++ ", " ++ displayList (next :: args)
termination_by structural es => es

end

/-! ## Substitution -/

/-- What a bare reference to `name` becomes: the argument of the first parameter of that name, an
    opaque expression if there is no such argument, and itself if it is no parameter. -/
def substituteName (params : List String) (args : List TypeExpr) (name : String) : TypeExpr :=
  match params.idxOf? name with
  | some i => (args[i]?).getD (.other name)
  | none => .named name []

mutual

/-- Replaces every bare reference to one of `params` by the argument at its place. The head of an
    instantiation `N[..]` is no such reference. -/
def substitute (params : List String) (args : List TypeExpr) : TypeExpr → TypeExpr
  | .named name own =>
    if own.isEmpty then substituteName params args name
    else .named name (substituteList params args own)
  | .pointer pointee => .pointer (substitute params args pointee)
  | .slice element => .slice (substitute params args element)
  | .array element => .array (substitute params args element)
  | .struct fields => .struct (substituteFields params args fields)
  | .map key value => .map (substitute params args key) (substitute params args value)
  | .chan element => .chan (substitute params args element)
  | .qualified package name => .qualified package name
  | .interface => .interface
  | .func => .func
  | .other text => .other text
termination_by structural e => e

/-- Substitution in each of a list of type arguments. -/
def substituteList (params : List String) (args : List TypeExpr) : List TypeExpr → List TypeExpr
  | [] => []
  | e :: es => substitute params args e :: substituteList params args es
termination_by structural es => es

/-- Substitution in the types of a list of fields. -/
def substituteFields (params : List String) (args : List TypeExpr) :
    List (FieldOf TypeExpr) → List (FieldOf TypeExpr)
  | [] => []
  | f :: fs => substituteField params args f :: substituteFields params args fs
termination_by structural fs => fs

/-- Substitution in the type of a field. -/
def substituteField (params : List String) (args : List TypeExpr) :
    FieldOf TypeExpr → FieldOf TypeExpr
  | ⟨names, type, tag, comments, variadic⟩ =>
    ⟨names, substitute params args type, tag, comments, variadic⟩
termination_by structural f => f

end

theorem substituteList_eq_map (params : List String) (args es : List TypeExpr) :
    substituteList params args es = es.map (substitute params args) := by
  induction es with
  | nil => rfl
  | cons e es ih => simp [substituteList, ih]

theorem substituteFields_eq_map (params : List String) (args : List TypeExpr)
    (fs : List FieldDecl) :
    substituteFields params args fs =
      fs.map fun f => { f with type := substitute params args f.type } := by
  induction fs with
  | nil => rfl
  | cons f fs ih =>
    obtain ⟨names, type, tag, comments, variadic⟩ := f
    simp [substituteFields, substituteField, ih]

end TypeExpr

end CallSchema
