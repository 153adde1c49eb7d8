/-!
Finite maps from names to values, kept in ascending order of name. The order is that of code
points, so a dictionary is walked, printed and compared in one way only, and two dictionaries
with the same bindings are equal.
-/

namespace UniqueJobs

/-- Names in ascending order, each bound once. -/
structure Dictionary (α : Type) where
  entries : List (String × α)
  ascending : entries.Pairwise fun a b ↦ a.1 < b.1

namespace Dictionary

variable {α β : Type}

instance [DecidableEq α] : DecidableEq (Dictionary α) := fun a b ↦
  decidable_of_iff (a.entries = b.entries) (by cases a; cases b; simp)

def empty : Dictionary α := ⟨[], .nil⟩

instance : Inhabited (Dictionary α) := ⟨empty⟩

def isEmpty (d : Dictionary α) : Bool := d.entries.isEmpty

def size (d : Dictionary α) : Nat := d.entries.length

def keys (d : Dictionary α) : List String := d.entries.map (·.1)

def find (name : String) : List (String × α) → Option α
  | [] => none
  | (k, v) :: rest => if k = name then some v else find name rest

theorem find_filter_ne (name other : String) (l : List (String × α)) :
    find other (l.filter fun e ↦ e.1 ≠ name) = if name = other then none else find other l := by
  induction l with
  | nil => simp [find]
  | cons head rest ih =>
    obtain ⟨k, w⟩ := head
    by_cases hk : k = name
    · subst hk
      rw [List.filter_cons_of_neg (by simp), ih]
      by_cases ho : k = other <;> simp [find, ho]
    · rw [List.filter_cons_of_pos (by simpa using hk)]
      simp only [find, ih]
      by_cases ho : k = other
      · subst ho
        simp [Ne.symm hk]
      · simp [ho]

def get? (d : Dictionary α) (name : String) : Option α := find name d.entries

def contains (d : Dictionary α) (name : String) : Bool := (d.get? name).isSome

/-- Bind a name in its place, over the binding it may have had. -/
def place (name : String) (v : α) : List (String × α) → List (String × α)
  | [] => [(name, v)]
  | (k, w) :: rest =>
    if name < k then (name, v) :: (k, w) :: rest
    else if name = k then (name, v) :: rest
    else (k, w) :: place name v rest

theorem mem_place {name : String} {v : α} {l : List (String × α)} {e : String × α}
    (h : e ∈ place name v l) : e = (name, v) ∨ e ∈ l := by
  induction l with
  | nil => simpa [place] using h
  | cons head rest ih =>
    obtain ⟨k, w⟩ := head
    simp only [place] at h
    split at h
    · simpa using h
    · split at h
      · rcases List.mem_cons.mp h with h | h
        · exact .inl h
        · exact .inr (List.mem_cons_of_mem _ h)
      · rcases List.mem_cons.mp h with h | h
        · exact .inr (h ▸ List.mem_cons_self)
        · exact (ih h).imp_right (List.mem_cons_of_mem _)

theorem place_ascending {l : List (String × α)} (name : String) (v : α)
    (h : l.Pairwise fun a b ↦ a.1 < b.1) :
    (place name v l).Pairwise fun a b ↦ a.1 < b.1 := by
  induction l with
  | nil => simp [place]
  | cons head rest ih =>
    obtain ⟨k, w⟩ := head
    obtain ⟨hk, hrest⟩ := List.pairwise_cons.mp h
    simp only [place]
    split
    · rename_i hlt
      refine List.pairwise_cons.mpr ⟨fun e he ↦ ?_, h⟩
      rcases List.mem_cons.mp he with rfl | he
      · exact hlt
      · exact String.lt_trans hlt (hk e he)
    · split
      · rename_i heq
        subst heq
        exact List.pairwise_cons.mpr ⟨hk, hrest⟩
      · rename_i hlt hne
        have hkn : k < name := Std.lt_of_le_of_ne (Std.not_lt.mp hlt) (Ne.symm hne)
        refine List.pairwise_cons.mpr ⟨fun e he ↦ ?_, ih hrest⟩
        rcases mem_place he with rfl | he
        · exact hkn
        · exact hk e he

def insert (d : Dictionary α) (name : String) (v : α) : Dictionary α :=
  ⟨place name v d.entries, place_ascending name v d.ascending⟩

def erase (d : Dictionary α) (name : String) : Dictionary α :=
  ⟨d.entries.filter fun e ↦ e.1 ≠ name, d.ascending.filter _⟩

/-- Of several bindings of one name the last stays. -/
def ofList (l : List (String × α)) : Dictionary α :=
  l.foldl (fun d e ↦ d.insert e.1 e.2) empty

def map (f : α → β) (d : Dictionary α) : Dictionary β :=
  ⟨d.entries.map fun e ↦ (e.1, f e.2), List.pairwise_map.mpr d.ascending⟩

theorem find_place (name other : String) (v : α) (l : List (String × α)) :
    find other (place name v l) = if name = other then some v else find other l := by
  induction l with
  | nil => simp [place, find]
  | cons head rest ih =>
    obtain ⟨k, w⟩ := head
    simp only [place]
    split
    · simp [find]
    · split
      · rename_i h
        subst h
        simp only [find]
        split <;> rfl
      · rename_i hne
        simp only [find, ih]
        by_cases hk : k = other
        · subst hk
          simp [hne]
        · simp [hk]

@[simp] theorem get?_insert (d : Dictionary α) (name other : String) (v : α) :
    (d.insert name v).get? other = if name = other then some v else d.get? other :=
  find_place name other v d.entries

@[simp] theorem get?_erase (d : Dictionary α) (name other : String) :
    (d.erase name).get? other = if name = other then none else d.get? other :=
  find_filter_ne name other d.entries

@[simp] theorem get?_empty (name : String) : (empty : Dictionary α).get? name = none := rfl

theorem find_eq_some_iff {l : List (String × α)} (h : l.Pairwise fun a b ↦ a.1 < b.1)
    (name : String) (v : α) : find name l = some v ↔ (name, v) ∈ l := by
  induction l with
  | nil => simp [find]
  | cons head rest ih =>
    obtain ⟨k, w⟩ := head
    obtain ⟨hk, hrest⟩ := List.pairwise_cons.mp h
    simp only [find, List.mem_cons, Prod.mk.injEq]
    split
    · rename_i heq
      subst heq
      constructor
      · intro hv
        exact .inl ⟨rfl, (Option.some.inj hv).symm⟩
      · rintro (⟨-, rfl⟩ | hv)
        · rfl
        · exact absurd (hk _ hv) (String.lt_irrefl _)
    · rename_i hne
      rw [ih hrest]
      constructor
      · exact .inr
      · rintro (⟨rfl, -⟩ | hv)
        · exact absurd rfl hne
        · exact hv

theorem get?_eq_some_iff (d : Dictionary α) (name : String) (v : α) :
    d.get? name = some v ↔ (name, v) ∈ d.entries :=
  find_eq_some_iff d.ascending name v

theorem place_of_lt {name : String} {l : List (String × α)} (v : α) (h : ∀ e ∈ l, e.1 < name) :
    place name v l = l ++ [(name, v)] := by
  induction l with
  | nil => rfl
  | cons head rest ih =>
    obtain ⟨k, w⟩ := head
    have hk : k < name := h (k, w) List.mem_cons_self
    have hne : name ≠ k := fun heq ↦ String.lt_irrefl _ (heq ▸ hk)
    rw [place, if_neg (String.lt_asymm hk), if_neg hne, List.cons_append,
      ih fun e he ↦ h e (List.mem_cons_of_mem _ he)]

theorem entries_foldl_insert {l : List (String × α)} {d : Dictionary α}
    (h : (d.entries ++ l).Pairwise fun a b ↦ a.1 < b.1) :
    (l.foldl (fun d e ↦ d.insert e.1 e.2) d).entries = d.entries ++ l := by
  induction l generalizing d with
  | nil => simp
  | cons e rest ih =>
    have hp : (d.insert e.1 e.2).entries = d.entries ++ [e] :=
      place_of_lt e.2 fun x hx ↦ (List.pairwise_append.mp h).2.2 x hx e List.mem_cons_self
    have hs : d.entries ++ e :: rest = (d.entries ++ [e]) ++ rest := by simp
    rw [List.foldl_cons, ih (by rwa [hp, ← hs]), hp, hs]

theorem entries_ofList {l : List (String × α)} (h : l.Pairwise fun a b ↦ a.1 < b.1) :
    (ofList l).entries = l := entries_foldl_insert h

/-- Two dictionaries with the same entries are equal. -/
@[ext] theorem ext {a b : Dictionary α} (h : a.entries = b.entries) : a = b := by
  cases a
  cases b
  simpa using h

@[simp] theorem ofList_entries (d : Dictionary α) : ofList d.entries = d :=
  ext (entries_ofList d.ascending)

end Dictionary

abbrev NameSet := Dictionary Unit

namespace NameSet

def add (s : NameSet) (name : String) : NameSet := s.insert name ()

def addAll (s : NameSet) (names : List String) : NameSet := names.foldl add s

def ofNames (names : List String) : NameSet := addAll Dictionary.empty names

end NameSet

end UniqueJobs
