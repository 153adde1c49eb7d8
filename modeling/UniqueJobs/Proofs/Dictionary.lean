import UniqueJobs.Dictionary

/-!
Dictionaries made from lists. Of one name the last binding counts, and a dictionary is known by what
it gives for each name.
-/

namespace UniqueJobs.Dictionary

variable {α β : Type}

theorem find_append (name : String) (a b : List (String × α)) :
    find name (a ++ b) = (find name a).or (find name b) := by
  induction a with
  | nil => rfl
  | cons e rest ih =>
    obtain ⟨k, v⟩ := e
    rw [List.cons_append, find, find]
    split
    · rfl
    · exact ih

theorem get?_foldl_insert (l : List (String × α)) (d : Dictionary α) (name : String) :
    (l.foldl (fun d e ↦ d.insert e.1 e.2) d).get? name = (find name l.reverse).or (d.get? name) := by
  induction l generalizing d with
  | nil => rfl
  | cons e rest ih =>
    rw [List.foldl_cons, ih, List.reverse_cons, find_append, get?_insert, Option.or_assoc]
    congr 1
    obtain ⟨k, v⟩ := e
    rw [find]
    split
    · rfl
    · rfl

/-- Of several bindings of one name the last is found. -/
theorem get?_ofList (l : List (String × α)) (name : String) :
    (ofList l).get? name = find name l.reverse := by
  rw [ofList, get?_foldl_insert, get?_empty, Option.or_none]

theorem find_eq_none_iff {l : List (String × α)} {name : String} :
    find name l = none ↔ name ∉ l.map (·.1) := by
  induction l with
  | nil => simp [find]
  | cons e rest ih =>
    obtain ⟨k, v⟩ := e
    rw [find, List.map_cons, List.mem_cons]
    split
    · rename_i h
      simp [h]
    · rename_i h
      rw [ih]
      simp [Ne.symm h]

theorem find_reverse {l : List (String × α)} (h : (l.map (·.1)).Nodup) (name : String) :
    find name l.reverse = find name l := by
  induction l with
  | nil => rfl
  | cons e rest ih =>
    obtain ⟨k, v⟩ := e
    rw [List.map_cons, List.nodup_cons] at h
    rw [List.reverse_cons, find_append, ih h.2, find, find, find]
    split
    · rename_i hk
      rw [find_eq_none_iff.mpr (hk ▸ h.1), Option.none_or]
    · rw [Option.or_none]

theorem mem_of_find_eq_some {l : List (String × α)} {name : String} {v : α}
    (h : find name l = some v) : (name, v) ∈ l := by
  induction l with
  | nil => cases h
  | cons e rest ih =>
    obtain ⟨k, w⟩ := e
    rw [find] at h
    split at h
    · rename_i hk
      rw [hk, Option.some.inj h]
      exact List.mem_cons_self
    · exact List.mem_cons_of_mem _ (ih h)

theorem length_keys (d : Dictionary α) : d.keys.length = d.size := List.length_map ..

theorem keys_ascending (d : Dictionary α) : d.keys.Pairwise (· < ·) :=
  List.pairwise_map.mpr d.ascending

theorem nodup_keys (d : Dictionary α) : d.keys.Nodup := by
  refine d.keys_ascending.imp fun {a b} h heq ↦ ?_
  rw [heq] at h
  exact String.lt_irrefl _ h

theorem nodup_entries (d : Dictionary α) : d.entries.Nodup :=
  (List.pairwise_map.mp d.nodup_keys).imp fun h heq ↦ h (congrArg Prod.fst heq)

/-- A dictionary is known by what it gives for each name. -/
theorem ext_get? {a b : Dictionary α} (h : ∀ name, a.get? name = b.get? name) : a = b := by
  refine Dictionary.ext (List.Perm.eq_of_pairwise ?_ a.ascending b.ascending ?_)
  · intro x y _ _ hxy hyx
    exact absurd hyx (String.lt_asymm hxy)
  · rw [List.perm_ext_iff_of_nodup a.nodup_entries b.nodup_entries]
    intro ⟨name, v⟩
    rw [← get?_eq_some_iff, ← get?_eq_some_iff, h]

end UniqueJobs.Dictionary
