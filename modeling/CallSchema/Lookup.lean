import CallSchema.Error
import CallSchema.Package
import CallSchema.Policy

/-!
Finding the function to describe.

* `findFunction` takes the first function of the name, in the order of the units and of the
  declarations in each; under `DuplicatePolicy.error` it must be the only one.
* Types are never candidates (`functionsNamed` looks at functions alone).
-/

namespace CallSchema

/-- The function with exactly the given name. -/
def findFunction (units : List SourceUnit) (name : String) (policy : DuplicatePolicy) :
    Except SchemaError FuncDecl :=
  match functionsNamed units name, policy with
  | [], _ => .error (.functionNotFound name)
  | [(_, f)], _ => .ok f
  | (_, f) :: _ :: _, .first => .ok f
  | candidates, .error =>
    .error (.ambiguousFunction name (candidates.map fun (path, f) => (path, f.line)))

end CallSchema
