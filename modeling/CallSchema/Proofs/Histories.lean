import CallSchema.Proofs.Properties
import Mathlib.Data.List.Induction

/-!
What a node records of a history of insertions.

`lastInsertion?` is the last insertion under a name, and `StandsAt is name k` says that the `k`-th
insertion is the first one since when the name has been required all the time.

1. The properties bear the distinct names in the order in which these first came
   (`propertyNames_object`), and each holds the value inserted last under its name
   (`lookup_object`).
2. A name is required exactly if its last insertion required it (`mem_required_object`).
3. The required names are in the order of the places at which they stand (`inOrder_object`). A name
   that was optional in between stands where it was required again, and not at its first place.
4. `takeSingle_object`: the only property can be taken out if there was one name, however often it
   was inserted.
-/

namespace CallSchema

/-- The last insertion under a name. -/
def lastInsertion? (is : List Insertion) (name : String) : Option Insertion :=
  is.reverse.find? (·.name == name)

/-- The name has been required since the insertion at place `k`: this one requires it, the one under
    that name before it, if there is any, does not, and none after it makes the name optional. -/
inductive StandsAt : List Insertion → String → Nat → Prop where
  | intro (before : List Insertion) (i : Insertion) (after : List Insertion)
      (requires : i.isRequired = true)
      (anew : ∀ o ∈ lastInsertion? before i.name, o.isRequired = false)
      (stays : ∀ o ∈ after, o.name = i.name → o.isRequired = true) :
      StandsAt (before ++ i :: after) i.name before.length

@[simp] theorem lastInsertion?_nil (name : String) : lastInsertion? [] name = none := rfl

theorem lastInsertion?_concat (is : List Insertion) (i : Insertion) (name : String) :
    lastInsertion? (is ++ [i]) name = if i.name = name then some i else lastInsertion? is name := by
  by_cases h : i.name = name <;> simp [lastInsertion?, h]

theorem isSome_lastInsertion? {is : List Insertion} {name : String} :
    (lastInsertion? is name).isSome ↔ name ∈ is.map Insertion.name := by
  simp [lastInsertion?]

namespace StandsAt

variable {is : List Insertion} {name : String} {k : Nat}

theorem lt_length (h : StandsAt is name k) : k < is.length := by
  cases h
  simp

/-- A name keeps its place as long as no insertion makes it optional. -/
theorem concat (h : StandsAt is name k) {i : Insertion}
    (hi : i.name = name → i.isRequired = true) : StandsAt (is ++ [i]) name k := by
  cases h with
  | intro before j after requires anew stays =>
    rw [List.append_assoc, List.cons_append]
    refine .intro before j (after ++ [i]) requires anew fun o ho => ?_
    rcases List.mem_append.mp ho with ho | ho
    · exact stays o ho
    · exact List.mem_singleton.mp ho ▸ hi

/-- A name that was not required gets the place of the insertion that requires it. -/
theorem last {i : Insertion} (hi : i.isRequired = true)
    (h : ∀ o ∈ lastInsertion? is i.name, o.isRequired = false) :
    StandsAt (is ++ [i]) i.name is.length :=
  .intro is i [] hi h (by simp)

/-- A later place would have been made anew, by an optional insertion that the earlier one rules
    out. -/
theorem not_later {before mid after : List Insertion} {i j : Insertion} (hname : i.name = j.name)
    (hi : i.isRequired = true)
    (stays : ∀ o ∈ mid ++ j :: after, o.name = i.name → o.isRequired = true)
    (anew : ∀ o ∈ lastInsertion? (before ++ i :: mid) j.name, o.isRequired = false) : False := by
  rw [lastInsertion?, List.reverse_append, List.reverse_cons, List.append_assoc,
    List.find?_append, List.find?_append] at anew
  cases hfind : mid.reverse.find? (·.name == j.name) with
  | none =>
    have hanew := anew i (by simp [hfind, hname])
    simp [hi] at hanew
  | some o =>
    have hanew := anew o (by simp [hfind])
    have hmem : o ∈ mid := List.mem_reverse.mp (List.mem_of_find?_eq_some hfind)
    have hon : o.name = i.name := by simpa [hname] using List.find?_some hfind
    simp [stays o (List.mem_append_left _ hmem) hon] at hanew

theorem unique {l : Nat} (hk : StandsAt is name k) (hl : StandsAt is name l) : l = k := by
  obtain ⟨before, i, after, hi, hanew, hstays⟩ := hk
  generalize his : before ++ i :: after = js at hl
  generalize hname : i.name = name at hl
  obtain ⟨before', j, after', hj, hanew', hstays'⟩ := hl
  rcases List.append_eq_append_iff.mp his with ⟨mid, rfl, hrest⟩ | ⟨mid, rfl, hrest⟩
  · cases mid with
    | nil => simp
    | cons x mid =>
      obtain ⟨rfl, rfl⟩ := List.cons.inj hrest
      exact (not_later hname hi hstays hanew').elim
  · cases mid with
    | nil => simp
    | cons x mid =>
      obtain ⟨rfl, rfl⟩ := List.cons.inj hrest
      exact (not_later hname.symm hj hstays' hanew).elim

end StandsAt

namespace Definition

/-! ## Names and values -/

theorem propertyNames_insertProperty (d : Definition) (name : String) (value : Definition)
    (isRequired : Bool) : (d.insertProperty name value isRequired).propertyNames =
      d.propertyNames ++ if name ∈ d.propertyNames then [] else [name] := by
  rw [propertyNames, insertProperty_properties]
  split
  · rename_i h
    rw [map_fst_upsert_of_mem value h, List.append_nil]
    rfl
  · rename_i h
    rw [upsert_of_notMem value h, List.map_append]
    rfl

theorem eraseDups_concat {α : Type} [DecidableEq α] (as : List α) (a : α) :
    (as ++ [a]).eraseDups = as.eraseDups ++ if a ∈ as then [] else [a] := by
  rw [List.eraseDups_append]
  by_cases h : a ∈ as <;> simp [List.removeAll, List.eraseDups_cons, h]

theorem propertyNames_object (is : List Insertion) :
    (object.insertMany is).propertyNames = (is.map Insertion.name).eraseDups := by
  induction is using List.reverseRecOn with
  | nil => rfl
  | append_singleton is i ih =>
    rw [insertMany_append, insertMany_cons, insertMany_nil, propertyNames_insertProperty, ih,
      List.map_append, List.map_singleton, eraseDups_concat]
    simp only [List.mem_eraseDups]

theorem lookup_object (is : List Insertion) (name : String) :
    (object.insertMany is).properties.lookup name =
      (lastInsertion? is name).map Insertion.value := by
  induction is using List.reverseRecOn with
  | nil => rfl
  | append_singleton is i ih =>
    rw [insertMany_append, insertMany_cons, insertMany_nil, insertProperty_properties,
      lastInsertion?_concat]
    split
    · rename_i h
      rw [h, lookup_upsert_self]
      rfl
    · rename_i h
      rw [lookup_upsert_of_ne _ _ (Ne.symm h), ih]

/-! ## Required names -/

theorem mem_required_object {is : List Insertion} {name : String} :
    name ∈ (object.insertMany is).required ↔
      ∃ i ∈ lastInsertion? is name, i.isRequired = true := by
  induction is using List.reverseRecOn with
  | nil => simp [insertMany_nil, object]
  | append_singleton is i ih =>
    rw [insertMany_append, insertMany_cons, insertMany_nil, insertProperty_required,
      mem_requiredAfter, lastInsertion?_concat]
    by_cases h : i.name = name
    · simp [h]
    · simp [h, Ne.symm h, ih]

theorem nodup_required_object (is : List Insertion) : (object.insertMany is).required.Nodup := by
  induction is using List.reverseRecOn with
  | nil => simp [insertMany_nil, object]
  | append_singleton is i ih =>
    rw [insertMany_append, insertMany_cons, insertMany_nil, insertProperty_required]
    exact nodup_requiredAfter i.name i.isRequired ih

/-- What remains of a list after a filter remains related to a part of the other one. -/
theorem exists_forall₂_filter {α β : Type} {R S : α → β → Prop} {p : α → Bool} {as : List α}
    {bs : List β} (h : List.Forall₂ R as bs) (hS : ∀ a b, p a = true → R a b → S a b) :
    ∃ cs, cs.Sublist bs ∧ List.Forall₂ S (as.filter p) cs := by
  induction h with
  | nil => exact ⟨[], .slnil, .nil⟩
  | @cons a b as bs hab _ ih =>
    obtain ⟨cs, hsub, hcs⟩ := ih
    cases hp : p a with
    | true => exact ⟨b :: cs, hsub.cons_cons b, by simpa [hp] using hcs.cons (hS a b hp hab)⟩
    | false => exact ⟨cs, hsub.cons b, by simpa [hp] using hcs⟩

/-- The required names are in the order of the places at which they stand. -/
theorem inOrder_object (is : List Insertion) :
    ∃ places : List Nat, List.Forall₂ (StandsAt is) (object.insertMany is).required places ∧
      places.Pairwise (· < ·) := by
  induction is using List.reverseRecOn with
  | nil => exact ⟨[], .nil, .nil⟩
  | append_singleton is i ih =>
    obtain ⟨places, hstand, hsorted⟩ := ih
    have hlt : ∀ k ∈ places, k < is.length :=
      ((List.forall₂_and_left (p := (· < is.length)) places _).mp
        (List.Forall₂.flip (hstand.imp fun _ _ h => ⟨h.lt_length, h⟩))).1
    rw [insertMany_append, insertMany_cons, insertMany_nil, insertProperty_required]
    cases hreq : i.isRequired with
    | false =>
      -- Optional: the name loses its place, and all others keep theirs.
      obtain ⟨kept, hsub, hkept⟩ := exists_forall₂_filter (p := (· != i.name))
        (S := StandsAt (is ++ [i])) hstand fun name k hne h => h.concat fun e => by simp [e] at hne
      exact ⟨kept, by simpa [requiredAfter] using hkept, hsorted.sublist hsub⟩
    | true =>
      have hkeep := hstand.imp fun name k h => h.concat (i := i) fun _ => hreq
      by_cases hmem : i.name ∈ (object.insertMany is).required
      · exact ⟨places, by simpa [requiredAfter, hmem] using hkeep, hsorted⟩
      · have hlast : StandsAt (is ++ [i]) i.name is.length := by
          refine .last hreq fun o ho => ?_
          have hnot := mt mem_required_object.mpr hmem
          simpa using fun h => hnot ⟨o, ho, h⟩
        refine ⟨places ++ [is.length], ?_, ?_⟩
        · simpa [requiredAfter, hmem] using List.rel_append hkeep (.cons hlast .nil)
        · exact List.pairwise_append.mpr ⟨hsorted, by simp, by simpa using hlt⟩

/-! ## The only property -/

theorem takeSingle_of_length_ne {d : Definition} (h : d.propertyNames.length ≠ 1) :
    d.takeSingle = .error d := by
  rw [propertyNames, List.length_map] at h
  rw [takeSingle, singleProperty?]
  split
  · rename_i hsome
    split at hsome
    · simp_all
    · cases hsome
  · rfl

theorem takeSingle_of_propertyNames {d : Definition} {name : String} {value : Definition}
    (h : d.propertyNames = [name]) (hv : d.properties.lookup name = some value) :
    d.takeSingle = .ok value := by
  obtain ⟨⟨key, only⟩, hp, rfl⟩ := List.map_eq_singleton_iff.mp h
  rw [hp, List.lookup_cons_self] at hv
  obtain rfl := Option.some.inj hv
  rw [takeSingle, singleProperty?, hp]

/-- Under one name there is a last value, and this is the property that is taken out. -/
theorem takeSingle_object {is : List Insertion} {name : String}
    (h : (is.map Insertion.name).eraseDups = [name]) :
    ∃ i, lastInsertion? is name = some i ∧ (object.insertMany is).takeSingle = .ok i.value := by
  have hmem : name ∈ is.map Insertion.name := by
    rw [← List.mem_eraseDups, h]
    exact List.mem_singleton_self name
  obtain ⟨i, hi⟩ := Option.isSome_iff_exists.mp (isSome_lastInsertion?.mpr hmem)
  refine ⟨i, hi, takeSingle_of_propertyNames ((propertyNames_object is).trans h) ?_⟩
  rw [lookup_object, hi]
  rfl

/-! ## The whole history -/

/-- After any history of insertions into an object, its properties bear the distinct names in the
    order in which they first came and hold what was inserted last; a name is required, once,
    exactly if its last insertion required it, and the required names come in the order of the places
    since which they have been required. If there was one name, its last value can be taken out, and
    otherwise the object is handed back. -/
theorem insertMany_history (is : List Insertion) :
    let result := object.insertMany is
    result = { object with properties := result.properties, required := result.required } ∧
      result.propertyNames = (is.map Insertion.name).eraseDups ∧
      (∀ name, result.properties.lookup name = (lastInsertion? is name).map Insertion.value) ∧
      (∀ name, result.required.count name =
        if (lastInsertion? is name).any (·.isRequired) then 1 else 0) ∧
      (∃ places : List Nat, places.Pairwise (· < ·) ∧
        List.Forall₂ (fun name k => ∀ l, StandsAt is name l ↔ l = k) result.required places) ∧
      (∀ name, (is.map Insertion.name).eraseDups = [name] →
        ∃ i, lastInsertion? is name = some i ∧ result.takeSingle = .ok i.value) ∧
      ((is.map Insertion.name).eraseDups.length ≠ 1 → result.takeSingle = .error result) := by
  refine ⟨insertMany_frame object is, propertyNames_object is, lookup_object is, fun name => ?_, ?_,
    fun name => takeSingle_object, fun h => ?_⟩
  · rw [(nodup_required_object is).count]
    simp only [mem_required_object, Option.any_eq_true, Option.mem_def]
  · obtain ⟨places, hstand, hsorted⟩ := inOrder_object is
    exact ⟨places, hsorted, hstand.imp fun name k hk l => ⟨hk.unique, fun h => h ▸ hk⟩⟩
  · exact takeSingle_of_length_ne (by rwa [propertyNames_object])

/-- A name that was optional in between stands behind the one required meanwhile, though its
    property keeps the first place; one name inserted twice leaves one property to take out. -/
theorem insertMany_history_anew :
    let is : List Insertion :=
      [⟨"a", null, true⟩, ⟨"b", null, true⟩, ⟨"a", object, false⟩, ⟨"a", array null, true⟩]
    let twice : List Insertion := [⟨"a", null, true⟩, ⟨"a", object, false⟩]
    (object.insertMany is).propertyNames = ["a", "b"] ∧
      (object.insertMany is).required = ["b", "a"] ∧
      (∃ places : List Nat, places.Pairwise (· < ·) ∧
        List.Forall₂ (fun name k => ∀ l, StandsAt is name l ↔ l = k) ["b", "a"] places) ∧
      (object.insertMany is).takeSingle = .error (object.insertMany is) ∧
      (object.insertMany twice).takeSingle = .ok object := by
  intro is twice
  obtain ⟨-, hnames, -, -, hplaces, -, hseveral⟩ := insertMany_history is
  obtain ⟨-, -, -, -, -, hone, -⟩ := insertMany_history twice
  have hrequired : (object.insertMany is).required = ["b", "a"] := by decide
  refine ⟨hnames.trans (by decide), hrequired, hrequired ▸ hplaces, hseveral (by decide), ?_⟩
  obtain ⟨i, hi, hvalue⟩ := hone "a" (by decide)
  obtain rfl := Option.some.inj hi
  exact hvalue

end Definition

end CallSchema
