/-!
Named values in order, as lists of pairs; of several entries of one name the first counts.

* `upsert` sets an entry without moving it (`lookup_upsert_self`, `lookup_upsert_of_ne`). It adds
  a name only where there was none (`map_fst_upsert_of_mem`, `upsert_of_notMem`), so names stay
  distinct (`nodup_map_fst_upsert`).
-/

namespace CallSchema

/-- Sets the entry of `key`, at its place if there is one and at the end if not. -/
def upsert {α : Type} (key : String) (value : α) : List (String × α) → List (String × α)
  | [] => [(key, value)]
  | entry :: rest =>
    if entry.1 = key then (key, value) :: rest else entry :: upsert key value rest

theorem lookup_upsert_self {α : Type} (key : String) (value : α) (entries : List (String × α)) :
    (upsert key value entries).lookup key = some value := by
  induction entries with
  | nil => simp [upsert]
  | cons entry rest ih =>
    obtain ⟨k, v⟩ := entry
    by_cases he : k = key
    · simp [upsert, he]
    · have hk : (key == k) = false := by simpa using Ne.symm he
      simp [upsert, he, List.lookup_cons, hk, ih]

theorem lookup_upsert_of_ne {α : Type} {key other : String} (value : α)
    (entries : List (String × α)) (h : other ≠ key) :
    (upsert key value entries).lookup other = entries.lookup other := by
  have hk : (other == key) = false := by simpa using h
  induction entries with
  | nil => simp [upsert, List.lookup_cons, hk]
  | cons entry rest ih =>
    obtain ⟨k, v⟩ := entry
    by_cases he : k = key
    · subst he
      simp [upsert, List.lookup_cons, hk]
    · simp [upsert, he, List.lookup_cons, ih]

theorem upsert_of_notMem {α : Type} {key : String} (value : α) {entries : List (String × α)}
    (h : key ∉ entries.map Prod.fst) : upsert key value entries = entries ++ [(key, value)] := by
  induction entries with
  | nil => rfl
  | cons entry rest ih =>
    rw [List.map_cons, List.mem_cons, not_or] at h
    rw [upsert, if_neg (Ne.symm h.1), ih h.2, List.cons_append]

theorem eq_or_mem_of_mem_upsert {α : Type} {key : String} {value : α}
    {entries : List (String × α)} {entry : String × α} (h : entry ∈ upsert key value entries) :
    entry = (key, value) ∨ entry ∈ entries := by
  induction entries with
  | nil => exact .inl (List.mem_singleton.mp h)
  | cons first rest ih =>
    rw [upsert] at h
    split at h
    · exact (List.mem_cons.mp h).imp_right (List.mem_cons_of_mem first)
    · rcases List.mem_cons.mp h with rfl | h
      · exact .inr List.mem_cons_self
      · exact (ih h).imp_right (List.mem_cons_of_mem first)

theorem map_fst_upsert_of_mem {α : Type} {key : String} (value : α) {entries : List (String × α)}
    (h : key ∈ entries.map Prod.fst) :
    (upsert key value entries).map Prod.fst = entries.map Prod.fst := by
  induction entries with
  | nil => simp at h
  | cons entry rest ih =>
    rw [upsert]
    split
    · rename_i he
      simp [he]
    · rename_i he
      rw [List.map_cons, List.map_cons, ih]
      exact (List.mem_cons.mp h).resolve_left (Ne.symm he)

theorem nodup_map_fst_upsert {α : Type} {key : String} {value : α} {entries : List (String × α)}
    (h : (entries.map Prod.fst).Nodup) : ((upsert key value entries).map Prod.fst).Nodup := by
  by_cases hk : key ∈ entries.map Prod.fst
  · rw [map_fst_upsert_of_mem value hk]
    exact h
  · rw [upsert_of_notMem value hk, List.map_append]
    refine List.nodup_append.mpr ⟨h, by simp, ?_⟩
    rintro a ha b hb rfl
    have hb : a = key := by simpa using hb
    exact hk (hb ▸ ha)

theorem mem_map_fst_upsert {α : Type} {key name : String} {value : α}
    {entries : List (String × α)} :
    name ∈ (upsert key value entries).map Prod.fst ↔ name = key ∨ name ∈ entries.map Prod.fst := by
  by_cases hk : key ∈ entries.map Prod.fst
  · rw [map_fst_upsert_of_mem value hk]
    exact ⟨.inr, fun h => h.elim (fun e => e ▸ hk) id⟩
  · rw [upsert_of_notMem value hk, List.map_append, List.mem_append, or_comm]
    simp

end CallSchema
