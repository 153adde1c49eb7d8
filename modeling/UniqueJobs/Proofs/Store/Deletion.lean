import Mathlib.Data.Finset.Card
import Mathlib.Data.Finset.Dedup
import Mathlib.Tactic.Tauto
import UniqueJobs.Proofs.Store.Live

/-!
What a deletion counts. A name that is listed twice, that has expired or that never was is dropped
while the others are counted, so the count is that of a set of names. Main statement:
`delete_counts_live`.
-/

namespace UniqueJobs.Entries

variable {now : Instant}

/-- The names of a list under which an entry is live, each of them once. -/
def liveNames (now : Instant) (names : List String) (es : Entries) : Finset String :=
  names.toFinset.filter fun name ↦ (es.live? now name).isSome

theorem mem_liveNames {names : List String} {es : Entries} {name : String} :
    name ∈ es.liveNames now names ↔ name ∈ names ∧ (es.live? now name).isSome := by
  rw [liveNames, Finset.mem_filter, List.mem_toFinset]

theorem liveNames_congr {names names' : List String} {es es' : Entries}
    (hnames : ∀ name, name ∈ names' ↔ name ∈ names)
    (hes : ∀ name ∈ names, es'.live? now name = es.live? now name) :
    es'.liveNames now names' = es.liveNames now names := by
  ext name
  rw [mem_liveNames, mem_liveNames, hnames]
  refine and_congr_right fun hname ↦ ?_
  rw [hes name hname]

theorem liveNames_cons_of_none {name : String} {es : Entries} (h : es.live? now name = none)
    (rest : List String) : es.liveNames now (name :: rest) = es.liveNames now rest := by
  ext other
  rw [mem_liveNames, mem_liveNames, List.mem_cons]
  by_cases ho : other = name
  · subst ho
    simp [h]
  · simp [ho]

/-- Once an entry is erased, its name is no longer counted where it is listed again. -/
theorem liveNames_erase (name : String) (rest : List String) (es : Entries) :
    liveNames now rest (es.erase name) = (es.liveNames now (name :: rest)).erase name := by
  ext other
  rw [mem_liveNames, Finset.mem_erase, mem_liveNames, live?_erase, List.mem_cons]
  by_cases ho : name = other
  · simp [ho]
  · simp [ho, Ne.symm ho]

theorem delete_fst (names : List String) (es : Entries) :
    (delete now names es).1 = (es.liveNames now names).card := by
  induction names generalizing es with
  | nil => rfl
  | cons name rest ih =>
    have hpurged (names : List String) : liveNames now names (es.purge now name) =
        es.liveNames now names :=
      liveNames_congr (fun _ ↦ Iff.rfl) fun other _ ↦ live?_purge name other es
    simp only [delete, get?_purge]
    cases h : es.live? now name with
    | none =>
      simp only [ih, hpurged]
      rw [liveNames_cons_of_none h]
    | some e =>
      have hmem : name ∈ es.liveNames now (name :: rest) :=
        mem_liveNames.mpr ⟨List.mem_cons_self, by rw [h]; rfl⟩
      simp only [ih, liveNames_erase, hpurged]
      exact Finset.card_erase_add_one hmem

/-- A deletion counts the names of its list that are live, each of them once. From then on nothing
is live under a name of the list, and every other entry is what it would have been. Neither the
order of the list nor repeats in it make a difference. -/
theorem delete_counts_live (now : Instant) (names : List String) (es : Entries) :
    let r := delete now names es
    r.1 = (names.toFinset.filter fun name ↦ (es.live? now name).isSome).card ∧
      (∀ (t : Instant) (name : String), now.nanos ≤ t.nanos →
        r.2.live? t name = if name ∈ names then none else es.live? t name) ∧
      ∀ names', (∀ name, name ∈ names' ↔ name ∈ names) →
        let r' := delete now names' es
        r'.1 = r.1 ∧
          ∀ (t : Instant) (name : String), now.nanos ≤ t.nanos →
            r'.2.live? t name = r.2.live? t name := by
  have hlater (names : List String) (t : Instant) (name : String) (ht : now.nanos ≤ t.nanos) :
      live? t name (delete now names es).2 = if name ∈ names then none else es.live? t name := by
    rw [live?_of_le ht, live?_delete, live?_of_le ht name es]
    split <;> rfl
  refine ⟨delete_fst names es, hlater names, fun names' hnames ↦ ⟨?_, fun t name ht ↦ ?_⟩⟩
  · rw [delete_fst, delete_fst, liveNames_congr hnames fun _ _ ↦ rfl]
  · rw [hlater names' t name ht, hlater names t name ht]
    simp only [hnames]

/-- A text, a list and a set at an instant that another text does not live to see. -/
def assorted : Entries :=
  .ofList [("gone", ⟨.text "1", some ⟨10⟩⟩), ("job", ⟨.text "2", some ⟨11⟩⟩),
    ("list", ⟨.list ["0/1", "1"], none⟩), ("set", ⟨.names (.ofNames ["main"]), none⟩)]

/-- Two of four names are live, however often they are listed. -/
theorem delete_counts_live_assorted :
    let names := ["job", "gone", "set", "unknown", "job", "gone"]
    let names' := ["gone", "unknown", "set", "job"]
    let r := delete ⟨10⟩ names assorted
    r.1 = 2 ∧ (∀ name ∈ names, r.2.live? ⟨10⟩ name = none) ∧
      r.2.live? ⟨12⟩ "list" = some ⟨.list ["0/1", "1"], none⟩ ∧
      (∀ name, name ∈ names' ↔ name ∈ names) ∧ (delete ⟨10⟩ names' assorted).1 = r.1 := by
  intro names names' r
  have hsame : ∀ name, name ∈ names' ↔ name ∈ names := by
    intro name
    simp only [names, names', List.mem_cons, List.not_mem_nil]
    tauto
  obtain ⟨hcount, hlive, horder⟩ := delete_counts_live ⟨10⟩ names assorted
  refine ⟨?_, fun name hname ↦ ?_, ?_, hsame, (horder names' hsame).1⟩
  · rw [hcount]
    decide +kernel
  · rw [hlive ⟨10⟩ name (Nat.le_refl _), if_pos hname]
  · rw [hlive ⟨12⟩ "list" (by decide)]
    decide +kernel

end UniqueJobs.Entries
