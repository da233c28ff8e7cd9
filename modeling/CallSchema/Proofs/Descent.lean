import CallSchema.Proofs.Subterms

/-!
How deep an expansion goes.

1. `refines_of_le`: a greater depth changes no end, so `DescribedAs`, which asks for the end of a
   function at any depth, has at most one.
2. `exists_halts`: with a guard, an expansion comes to an end if the named types that it can enter
   have only finitely many texts. Each one entered leaves fewer of them, and between two of them the
   expressions get smaller. `exists_describedAs` is the same for functions.
-/

namespace CallSchema.Expansion

/-! ## More depth -/

/-- Results at two depths are one, if a greater depth does not change a result. -/
theorem eq_of_stable {α : Type} {x : Nat → Option α}
    (stable : ∀ m n a, m ≤ n → x m = some a → x n = some a) {m n : Nat} {a b : α}
    (ha : x m = some a) (hb : x n = some b) : a = b := by
  have hleft := stable m (max m n) a (Nat.le_max_left m n) ha
  have hright := stable n (max m n) b (Nat.le_max_right m n) hb
  exact Option.some.inj (hleft.symm.trans hright)

section Depth

variable {E : SchemaError → Prop} {provider : Provider} {guard : Option CyclePolicy}

theorem refines_succ (depth : Nat) (expanding scope : List String) (e : TypeExpr) :
    Refines E (typeDefinition provider guard depth expanding scope e)
      (typeDefinition provider guard (depth + 1) expanding scope e) := by
  induction depth generalizing expanding scope e with
  | zero => exact fun r h => absurd h not_ends_tooDeep
  | succ depth ih =>
    cases hg : guarded guard expanding e with
    | some r =>
      rw [typeDefinition_caught hg, typeDefinition_caught hg]
      exact Refines.refl _
    | none => exact refines_typeDefinition hg hg rfl fun _ _ part _ => ih _ _ part

/-- An end at one depth is the end at every greater one. -/
theorem refines_of_le {m n : Nat} (h : m ≤ n) (expanding scope : List String) (e : TypeExpr) :
    Refines E (typeDefinition provider guard m expanding scope e)
      (typeDefinition provider guard n expanding scope e) := by
  induction h with
  | refl => exact Refines.refl _
  | step _ ih => exact fun r hr hE => refines_succ _ _ _ e r (ih r hr hE) hE

theorem Ends.of_le {m n : Nat} {expanding scope : List String} {e : TypeExpr}
    {r : Except SchemaError Definition} (hle : m ≤ n)
    (h : Ends (typeDefinition provider guard m expanding scope e) r) :
    Ends (typeDefinition provider guard n expanding scope e) r :=
  refines_of_le hle expanding scope e r h fun _ _ => trivial

theorem Halts.of_le {m n : Nat} {expanding scope : List String} {e : TypeExpr} (hle : m ≤ n)
    (h : Halts (typeDefinition provider guard m expanding scope e)) :
    Halts (typeDefinition provider guard n expanding scope e) :=
  h.imp fun _ hr => hr.of_le hle

theorem ends_function_of_le {m n : Nat} {f : FuncDecl} {r : Except SchemaError FunctionDetails}
    (hle : m ≤ n) (h : Ends (function provider guard m f) r) :
    Ends (function provider guard n f) r :=
  refines_function (fun _ _ _ => trivial) (fun e _ => refines_of_le hle [] f.typeParams e) r h
    fun _ _ => trivial

/-- The description of a function comes to this end at some depth. -/
def DescribedAs (provider : Provider) (guard : Option CyclePolicy) (f : FuncDecl)
    (r : Except SchemaError FunctionDetails) : Prop :=
  ∃ depth, Ends (function provider guard depth f) r

theorem DescribedAs.unique {f : FuncDecl} {r r' : Except SchemaError FunctionDetails}
    (h : DescribedAs provider guard f r) (h' : DescribedAs provider guard f r') : r = r' := by
  obtain ⟨m, hm⟩ := h
  obtain ⟨n, hn⟩ := h'
  exact eq_of_stable (fun _ _ _ hle => ends_function_of_le hle) hm hn

/-- There is one depth at which all those of some expressions halt that do so at any depth. -/
theorem exists_depth_forall (provider : Provider) (guard : Option CyclePolicy)
    (expanding scope : List String) (es : List TypeExpr) :
    ∃ depth, ∀ e ∈ es, (∃ m, Halts (typeDefinition provider guard m expanding scope e)) →
      Halts (typeDefinition provider guard depth expanding scope e) := by
  induction es with
  | nil => exact ⟨0, fun e he => absurd he List.not_mem_nil⟩
  | cons e es ih =>
    obtain ⟨n, hn⟩ := ih
    by_cases he : ∃ m, Halts (typeDefinition provider guard m expanding scope e)
    · obtain ⟨m, hm⟩ := he
      refine ⟨max m n, List.forall_mem_cons.mpr ⟨fun _ => ?_, fun e' he' h => ?_⟩⟩
      · exact hm.of_le (Nat.le_max_left m n)
      · exact (hn e' he' h).of_le (Nat.le_max_right m n)
    · exact ⟨n, List.forall_mem_cons.mpr ⟨fun h => absurd h he, hn⟩⟩

end Depth

/-! ## Coming to an end under a guard -/

section Guard

variable {p : Package} {policy : CyclePolicy}

/-- The texts that are not those of types on the way down. -/
def unentered (texts expanding : List String) : List String := texts.filter (· ∉ expanding)

theorem length_unentered_lt {texts expanding : List String} {text : String} (h : text ∈ texts)
    (hn : text ∉ expanding) :
    (unentered texts (text :: expanding)).length < (unentered texts expanding).length := by
  have hsplit : unentered texts (text :: expanding) =
      Package.without (unentered texts expanding) text := by
    rw [unentered, unentered, Package.without, List.filter_filter]
    refine List.filter_congr fun other _ => ?_
    by_cases he : other = text <;> simp [he]
  rw [hsplit]
  exact Package.length_without_lt (List.mem_filter.mpr ⟨h, by simpa using hn⟩)

/-- What an expansion can come to: a property of scopes and expressions that passes to the parts of
    what an expression is underneath, and under which the named types with parts have one of the
    given texts. -/
structure Bounded (p : Package) (texts : List String) (I : List String → TypeExpr → Prop) :
    Prop where
  part : ∀ {scope e type part}, I scope e → p.resolve scope e = .ok type → part ∈ type.parts →
    I (innerScope scope e) part
  text : ∀ {scope e type part identity}, I scope e → p.resolve scope e = .ok type →
    part ∈ type.parts → identity? e = some identity → identity ∈ texts

/-- The step of `exists_halts`: all parts halt at a depth of their own. -/
theorem exists_halts_of_parts {expanding scope : List String} {e : TypeExpr}
    (h : ∀ type, p.resolve scope e = .ok type → ∀ part ∈ type.parts, ∃ depth,
      Halts (typeDefinition p.provider (some policy) depth (entered expanding e)
        (innerScope scope e) part)) :
    ∃ depth, Halts (typeDefinition p.provider (some policy) depth expanding scope e) := by
  cases hr : p.resolve scope e with
  | error error =>
    refine ⟨1, halts_typeDefinition fun type htype => ?_⟩
    exact absurd (hr.symm.trans htype) nofun
  | ok type =>
    obtain ⟨depth, hdepth⟩ := exists_depth_forall p.provider (some policy) (entered expanding e)
      (innerScope scope e) type.parts
    refine ⟨depth + 1, halts_typeDefinition fun type' htype part hs => ?_⟩
    obtain rfl : type = type' := Except.ok.inj (hr.symm.trans htype)
    exact hdepth part hs.mem_parts (h type hr part hs.mem_parts)

/-- Under a guard, an expansion that can enter named types of finitely many texts only comes to an
    end. -/
theorem exists_halts {texts : List String} {I : List String → TypeExpr → Prop}
    (hI : Bounded p texts I) (expanding scope : List String) (e : TypeExpr) (he : I scope e) :
    ∃ depth, Halts (typeDefinition p.provider (some policy) depth expanding scope e) := by
  induction hk : (unentered texts expanding).length using Nat.strongRecOn
    generalizing expanding scope e with
  | ind k ihtexts =>
    -- Until the next named type is entered, the expressions get smaller.
    induction e using TypeExpr.induct generalizing scope with
    | h e ihchildren =>
      cases hg : guarded (some policy) expanding e with
      | some r =>
        refine ⟨1, ?_⟩
        rw [typeDefinition_caught hg]
        exact halts_finished r
      | none =>
        refine exists_halts_of_parts fun type htype part hpart => ?_
        have hpartI := hI.part he htype hpart
        cases hid : identity? e with
        | none =>
          have hchild : part ∈ e.children :=
            Package.mem_children_of_resolve (fun name args hn => by simp [hn, identity?] at hid)
              htype hpart
          have hentered : entered expanding e = expanding := by simp [entered, hid]
          rw [hentered]
          exact ihchildren part hchild _ hpartI
        | some identity =>
          have hnew : identity ∉ expanding := notMem_of_guarded_eq_none hid hg
          have hentered : entered expanding e = identity :: expanding := by simp [entered, hid]
          rw [hentered]
          have hlt := length_unentered_lt (hI.text he htype hpart hid) hnew
          exact ihtexts _ (hk ▸ hlt) _ _ part hpartI rfl

/-- So does the description of a function whose parameters can enter finitely many texts only. -/
theorem exists_describedAs {texts : List String} {I : List String → TypeExpr → Prop}
    (hI : Bounded p texts I) {f : FuncDecl} (hf : ∀ q ∈ f.params, I f.typeParams q.type) :
    ∃ r, DescribedAs p.provider (some policy) f r := by
  obtain ⟨depth, hdepth⟩ := exists_depth_forall p.provider (some policy) [] f.typeParams
    (f.params.map (·.type))
  obtain ⟨r, hr⟩ : Halts (function p.provider (some policy) depth f) := by
    refine halts_function.mpr fun e hs => ?_
    obtain ⟨q, hq, rfl⟩ := hs.exists_mem
    exact hdepth q.type (List.mem_map_of_mem hq) (exists_halts hI [] f.typeParams q.type (hf q hq))
  exact ⟨r, depth, hr⟩

end Guard

end CallSchema.Expansion
