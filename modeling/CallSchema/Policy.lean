/-!
Policies of a translation, and the words that settings use for them.

* `CyclePolicy` says what a reference to a type becomes while that type is being expanded.
* `DuplicatePolicy` says what to do when several functions have the requested name.
-/

namespace CallSchema

/-- What becomes of a recursive reference. -/
inductive CyclePolicy where
  /-- A null leaf that says so. -/
  | null
  /-- The translation fails. -/
  | error
deriving Repr, DecidableEq, Inhabited

/-- The word for the policy. -/
def CyclePolicy.word : CyclePolicy → String
  | .null => "null"
  | .error => "error"

/-- The policy with the given word. -/
def CyclePolicy.ofWord? (word : String) : Option CyclePolicy :=
  if word = "null" then some .null else if word = "error" then some .error else none

/-- What to do about several functions of one name. -/
inductive DuplicatePolicy where
  /-- The first one is meant. -/
  | first
  /-- The lookup fails. -/
  | error
deriving Repr, DecidableEq, Inhabited

/-- The word for the policy. -/
def DuplicatePolicy.word : DuplicatePolicy → String
  | .first => "first"
  | .error => "error"

/-- The policy with the given word; `first_match` is a second word for `first`. -/
def DuplicatePolicy.ofWord? (word : String) : Option DuplicatePolicy :=
  if word = "first" ∨ word = "first_match" then some .first
  else if word = "error" then some .error
  else none

theorem CyclePolicy.ofWord?_word (p : CyclePolicy) : CyclePolicy.ofWord? p.word = some p := by
  cases p <;> simp [CyclePolicy.ofWord?, CyclePolicy.word]

theorem DuplicatePolicy.ofWord?_word (p : DuplicatePolicy) :
    DuplicatePolicy.ofWord? p.word = some p := by
  cases p <;> simp [DuplicatePolicy.ofWord?, DuplicatePolicy.word]

/-- The policies of a translation. -/
structure TranslateOptions where
  cycles : CyclePolicy := .null
  duplicates : DuplicatePolicy := .first
deriving Repr, DecidableEq, Inhabited

end CallSchema
