import UniqueJobs.Json.Record
import UniqueJobs.Proofs.Dictionary
import UniqueJobs.Proofs.Json.Reading

/-!
Records as documents. The members that are written of a record are the fields it is read from, what
was left out being found missing; and what a document is nested is known from its parts. Main
statements: `fields?_object`, `ReadableIn.read?`.
-/

namespace UniqueJobs.Json

/-! ### Fields -/

theorem hasRepeats_of_nodup {names : List String} (h : names.Nodup) : hasRepeats names = false := by
  induction names with
  | nil => rfl
  | cons name rest ih =>
    rw [List.nodup_cons] at h
    simp [hasRepeats, h.1, ih h.2]

section Object

variable {names : List String} {members : List (String × Json)}
  (h : (members.map (·.1)).Sublist names) (hn : names.Nodup)
include h hn

/-- Members that are fields of the record, in the order of the fields, are its fields. -/
theorem fields?_object :
    fields? names (.object members) = some (Dictionary.ofList members) := by
  have hknown : members.filter (fun e ↦ names.contains e.1) = members :=
    List.filter_eq_self.mpr fun e he ↦
      List.contains_iff_mem.mpr (h.subset (List.mem_map_of_mem he))
  rw [fields?, hknown, if_neg (by rw [hasRepeats_of_nodup (h.nodup hn)]; exact Bool.false_ne_true)]

theorem get?_of_members (name : String) :
    (Dictionary.ofList members).get? name = Dictionary.find name members := by
  rw [Dictionary.get?_ofList, Dictionary.find_reverse (h.nodup hn)]

end Object

theorem optional?_of_ne_null {α : Type} (read : Json → Option α) {j : Json} (h : j ≠ .null) :
    optional? read j = (read j).map some := by
  cases j with
  | null => exact absurd rfl h
  | _ => rfl

theorem values?_map_json (vs : List Value) : values? (.array (vs.map (·.json))) = some vs := by
  rw [values?]
  induction vs with
  | nil => rfl
  | cons v vs ih => simp [ih]

theorem texts?_ofTexts (d : Dictionary String) : texts? (ofTexts d) = some d := by
  have hread : ∀ l : List (String × String),
      ((l.map fun e ↦ (e.1, Json.string e.2)).mapM fun e : String × Json ↦
        (text? e.2).map fun s ↦ (e.1, s)) = some l := by
    intro l
    induction l with
    | nil => rfl
    | cons e l ih =>
      rw [List.map_cons, List.mapM_cons, ih]
      rfl
  rw [ofTexts, texts?, hread, Option.map_some, Dictionary.ofList_entries]

section Fields

variable {α β : Type} {f : Fields} {name : String}

/-- A field that is left out when there is nothing to say is read back. -/
theorem getD_of_map {read : Json → Option β} {g : α → β} {o : Option α} (write : α → Json)
    (hget : f.get? name = o.map write) (hread : ∀ a, read (write a) = some (g a))
    (hnull : ∀ a, write a ≠ .null) :
    f.getD name (optional? read) none = some (o.map g) := by
  rw [Fields.getD, hget]
  cases o with
  | none => rfl
  | some a => exact (optional?_of_ne_null read (hnull a)).trans (by rw [hread]; rfl)

/-- A map that is left out when it is empty is read back. -/
theorem getD_of_texts {d : Dictionary String}
    (hget : f.get? name = if d.isEmpty then none else some (ofTexts d)) :
    f.getD name texts? .empty = some d := by
  rw [Fields.getD, hget]
  by_cases hempty : d.isEmpty
  · have hnil : d.entries = [] := by simpa [Dictionary.isEmpty] using hempty
    rw [if_pos hempty]
    exact congrArg some (Dictionary.ext hnil.symm)
  · rw [if_neg hempty]
    exact texts?_ofTexts d

end Fields

/-! ### Nesting -/

theorem depthOfItems_le_iff {l : List Json} {room : Nat} :
    depthOfItems l ≤ room ↔ ∀ j ∈ l, j.depth ≤ room := by
  induction l with
  | nil => simp [depthOfItems]
  | cons j rest ih => simp [depthOfItems, ih]

theorem depthOfMembers_le_iff {l : List (String × Json)} {room : Nat} :
    depthOfMembers l ≤ room ↔ ∀ e ∈ l, e.2.depth ≤ room := by
  induction l with
  | nil => simp [depthOfMembers]
  | cons e rest ih =>
    obtain ⟨name, j⟩ := e
    simp [depthOfMembers, ih]

/-- What is readable with at most so many levels of nesting. -/
structure ReadableIn (room : Nat) (j : Json) : Prop where
  denotes : j.Denotes
  depth : j.depth ≤ room

namespace ReadableIn

theorem read? {room : Nat} {j : Json} (h : ReadableIn room j) : read? room j.compact = some j :=
  read?_compact h.denotes h.depth

theorem array {room : Nat} {items : List Json} (h : ∀ j ∈ items, ReadableIn room j) :
    ReadableIn (room + 1) (.array items) :=
  ⟨denoteItems_iff.mpr fun j hj ↦ (h j hj).denotes,
    Nat.succ_le_succ (depthOfItems_le_iff.mpr fun j hj ↦ (h j hj).depth)⟩

theorem object {room : Nat} {members : List (String × Json)}
    (h : ∀ e ∈ members, ReadableIn room e.2) : ReadableIn (room + 1) (.object members) :=
  ⟨denoteMembers_iff.mpr fun e he ↦ (h e he).denotes,
    Nat.succ_le_succ (depthOfMembers_le_iff.mpr fun e he ↦ (h e he).depth)⟩

theorem null (room : Nat) : ReadableIn room .null := ⟨trivial, Nat.zero_le room⟩

theorem bool (room : Nat) (b : Bool) : ReadableIn room (.bool b) := ⟨trivial, Nat.zero_le room⟩

theorem string (room : Nat) (s : String) : ReadableIn room (.string s) :=
  ⟨trivial, Nat.zero_le room⟩

theorem int {n : Int} (h : IsWord n) (room : Nat) : ReadableIn room (.int n) := by
  rw [Json.int, dif_pos h]
  exact ⟨trivial, Nat.zero_le room⟩

theorem nat {n : Nat} (h : n < UInt64.size) (room : Nat) : ReadableIn room (.int n) :=
  int ⟨by omega, by omega⟩ room

theorem ofTexts (room : Nat) (d : Dictionary String) : ReadableIn (room + 1) (ofTexts d) := by
  refine object fun e he ↦ ?_
  obtain ⟨x, -, rfl⟩ := List.mem_map.mp he
  exact string room x.2

end ReadableIn

/-- Read a record from a text. -/
def readAs? {α : Type} (ofJson? : Json → Option α) (text : String) : Option α :=
  (read? depthLimit text).bind ofJson?

theorem readAs?_compact {α : Type} {ofJson? : Json → Option α} {j : Json}
    (h : ReadableIn depthLimit j) : readAs? ofJson? j.compact = ofJson? j := by
  rw [readAs?, h.read?, Option.bind_some]

end UniqueJobs.Json
