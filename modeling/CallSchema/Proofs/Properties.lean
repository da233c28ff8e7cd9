import CallSchema.Expansion
import Mathlib.Data.List.Nodup
import Mathlib.Data.List.Perm.Subperm

/-!
Histories of insertions into a schema node.

`Definition.insertMany` carries out a list of insertions one after the other.

1. It touches the properties and the required names alone (`insertMany_frame`), and property names
   stay distinct (`nodup_insertMany`).
2. If all names are new and distinct, the properties are appended in order, and so are the names of
   the required ones (`insertMany_fresh`).
3. Names that are not distinct leave fewer properties than there were insertions
   (`length_insertMany_lt`), and each property is that of some insertion
   (`exists_of_mem_insertMany`).
-/

namespace CallSchema

/-- One call for the insertion of a property. -/
structure Insertion where
  name : String
  value : Definition
  isRequired : Bool

/-- The entry that an insertion makes. -/
def Insertion.entry (i : Insertion) : String × Definition := (i.name, i.value)

namespace Definition

/-- The names of the properties in order. -/
def propertyNames (d : Definition) : List String := d.properties.map Prod.fst

/-- The node after the insertions, in their order. -/
def insertMany (d : Definition) (is : List Insertion) : Definition :=
  is.foldl (fun d i => d.insertProperty i.name i.value i.isRequired) d

theorem insertMany_nil (d : Definition) : d.insertMany [] = d := rfl

theorem insertMany_cons (d : Definition) (i : Insertion) (is : List Insertion) :
    d.insertMany (i :: is) =
      (d.insertProperty i.name i.value i.isRequired).insertMany is := rfl

theorem insertMany_append (d : Definition) (is js : List Insertion) :
    d.insertMany (is ++ js) = (d.insertMany is).insertMany js := List.foldl_append

/-! ## Any history -/

/-- Insertions touch the properties and the required names alone. -/
theorem insertMany_frame (d : Definition) (is : List Insertion) :
    d.insertMany is = { d with
      properties := (d.insertMany is).properties
      required := (d.insertMany is).required } := by
  induction is generalizing d with
  | nil => cases d; rfl
  | cons i is ih => exact ih (d.insertProperty i.name i.value i.isRequired)

theorem insertMany_type (d : Definition) (is : List Insertion) :
    (d.insertMany is).type = d.type := by
  rw [insertMany_frame]

theorem nodup_insertMany {d : Definition} (is : List Insertion) (h : d.propertyNames.Nodup) :
    (d.insertMany is).propertyNames.Nodup := by
  induction is generalizing d with
  | nil => exact h
  | cons i is ih => exact ih (nodup_map_fst_upsert h)

theorem mem_propertyNames_insertMany {d : Definition} {is : List Insertion} {name : String} :
    name ∈ (d.insertMany is).propertyNames ↔
      name ∈ d.propertyNames ∨ name ∈ is.map Insertion.name := by
  induction is generalizing d with
  | nil => simp [insertMany_nil]
  | cons i is ih =>
    rw [insertMany_cons, ih, List.map_cons, List.mem_cons, ← or_assoc]
    refine or_congr_left ?_
    rw [propertyNames, insertProperty_properties, mem_map_fst_upsert, or_comm]
    rfl

/-- Every property was there before or is that of some insertion. -/
theorem exists_of_mem_insertMany {d : Definition} {is : List Insertion}
    {entry : String × Definition} (h : entry ∈ (d.insertMany is).properties) :
    entry ∈ d.properties ∨ ∃ i ∈ is, i.entry = entry := by
  induction is generalizing d with
  | nil => exact .inl h
  | cons i is ih =>
    rcases ih h with hd | ⟨j, hj, rfl⟩
    · rcases eq_or_mem_of_mem_upsert hd with rfl | hd
      · exact .inr ⟨i, List.mem_cons_self, rfl⟩
      · exact .inl hd
    · exact .inr ⟨j, List.mem_cons_of_mem i hj, rfl⟩

/-- Insertions under names that are not distinct leave fewer properties than there were
    insertions. -/
theorem length_insertMany_lt {is : List Insertion} (h : ¬ (is.map Insertion.name).Nodup) :
    (object.insertMany is).properties.length < is.length := by
  have hn : (object.insertMany is).propertyNames.Nodup := nodup_insertMany is (by simp [object,
    propertyNames])
  have hs : (object.insertMany is).propertyNames ⊆ is.map Insertion.name := by
    intro name hm
    exact (mem_propertyNames_insertMany.mp hm).resolve_left (by simp [object, propertyNames])
  by_contra hl
  refine h (((List.subperm_of_subset hn hs).perm_of_length_le ?_).nodup_iff.mp hn)
  rw [List.length_map, propertyNames, List.length_map]
  omega

/-! ## New names -/

theorem requiredAfter_fresh {names : List String} {name : String} (isRequired : Bool)
    (h : name ∉ names) :
    requiredAfter names name isRequired = names ++ if isRequired then [name] else [] := by
  cases isRequired
  · simp only [requiredAfter, Bool.false_eq_true, if_false, List.append_nil]
    refine List.filter_eq_self.mpr fun a ha => ?_
    have hne : a ≠ name := fun he => h (he ▸ ha)
    simpa using hne
  · simp [requiredAfter, h]

/-- Under new and distinct names, the properties are appended in order, and so are the names of the
    required ones. -/
theorem insertMany_fresh {d : Definition} {is : List Insertion}
    (hr : ∀ name ∈ d.required, name ∈ d.propertyNames)
    (h : (d.propertyNames ++ is.map Insertion.name).Nodup) :
    d.insertMany is =
      { d with
        properties := d.properties ++ is.map Insertion.entry
        required := d.required ++ (is.filter (·.isRequired)).map Insertion.name } := by
  induction is generalizing d with
  | nil =>
    cases d
    simp [insertMany_nil]
  | cons i is ih =>
    have hi : i.name ∉ d.propertyNames := by
      intro hm
      exact List.disjoint_of_nodup_append h hm (by simp)
    have hstep : d.insertProperty i.name i.value i.isRequired =
        { d with
          properties := d.properties ++ [i.entry]
          required := d.required ++ if i.isRequired then [i.name] else [] } := by
      rw [insertProperty, requiredAfter_fresh _ (mt (hr _) hi), upsert_of_notMem _ hi]
      rfl
    rw [insertMany_cons, hstep, ih]
    · cases hreq : i.isRequired <;> simp [hreq]
    · intro name hm
      rw [propertyNames, List.map_append, List.mem_append]
      rcases List.mem_append.mp hm with hm | hm
      · exact .inl (hr name hm)
      · have hname : name = i.name := by
          split at hm <;> simp_all
        simp [Insertion.entry, hname]
    · simpa [propertyNames, Insertion.entry] using h

end Definition

/-! ## Insertion under several names -/

theorem insertAll_eq_insertMany (object : Definition) (names : List String) (d : Definition)
    (isRequired : Bool) :
    Expansion.insertAll object names d isRequired =
      object.insertMany (names.map fun name => ⟨name, d, isRequired⟩) := by
  rw [Definition.insertMany, List.foldl_map]
  rfl

end CallSchema
