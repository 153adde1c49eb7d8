import Mathlib.Algebra.GroupWithZero.Nat
import UniqueJobs.Proofs.Dictionary
import UniqueJobs.Proofs.Store.Procedures

/-!
The set that calls of `Entries.addNames` leave under one name. As long as each call but the first
finds the set, it holds the names of all calls and expires when the last of their times to live is
over; which of the calls at one instant comes first makes no difference. Main statement:
`joinAll_grows`.
-/

namespace UniqueJobs

/-! ### Expiries -/

/-- Is an expiry ahead at an instant? One that never comes always is. -/
def Ahead (now : Instant) (x : Option Instant) : Prop := ∀ t, x = some t → now.nanos < t.nanos

/-- Does an expiry come when the other one does or before? -/
def NoLater (x y : Option Instant) : Prop := ∀ t, y = some t → ∃ s, x = some s ∧ s.nanos ≤ t.nanos

/-- Is an expiry the latest of some? One that never comes is later than any that does. -/
structure Latest (expiries : List (Option Instant)) (x : Option Instant) : Prop where
  mem : x ∈ expiries
  noLater : ∀ y ∈ expiries, NoLater y x

theorem isLive_iff_ahead {content : Content} {x : Option Instant} {now : Instant} :
    Entry.isLive ⟨content, x⟩ now = true ↔ Ahead now x := by
  cases x with
  | none => exact iff_of_true rfl nofun
  | some t => simp [Entry.isLive, Ahead]

theorem ahead_deadline (now : Instant) (ttl : Duration) : Ahead now (deadline now ttl) :=
  isLive_iff_ahead.mp (isLive_deadline_self (.text "") now ttl)

namespace NoLater

variable {x y z : Option Instant}

theorem refl (x : Option Instant) : NoLater x x := fun t ht ↦ ⟨t, ht, Nat.le_refl _⟩

theorem trans (h : NoLater x y) (h' : NoLater y z) : NoLater x z := by
  intro t ht
  obtain ⟨s, hs, hle⟩ := h' t ht
  obtain ⟨r, hr, hle'⟩ := h s hs
  exact ⟨r, hr, Nat.le_trans hle' hle⟩

theorem antisymm (h : NoLater x y) (h' : NoLater y x) : x = y := by
  cases y with
  | none =>
    cases x with
    | none => rfl
    | some s =>
      obtain ⟨t, ht, -⟩ := h' s rfl
      cases ht
  | some t =>
    obtain ⟨s, rfl, hle⟩ := h t rfl
    obtain ⟨t', ht', hle'⟩ := h' s rfl
    obtain rfl := Option.some.inj ht'
    exact congrArg (fun n : Nat ↦ some (Instant.mk n)) (Nat.le_antisymm hle hle')

end NoLater

theorem noLater_laterExpiry (x y : Option Instant) :
    NoLater x (laterExpiry x y) ∧ NoLater y (laterExpiry x y) := by
  cases x with
  | none => exact ⟨nofun, nofun⟩
  | some a =>
    cases y with
    | none => exact ⟨nofun, nofun⟩
    | some b =>
      let later := if a.nanos < b.nanos then b else a
      have ha : a.nanos ≤ later.nanos := by grind
      have hb : b.nanos ≤ later.nanos := by grind
      constructor
      · intro t ht
        exact ⟨a, rfl, Option.some.inj ht ▸ ha⟩
      · intro t ht
        exact ⟨b, rfl, Option.some.inj ht ▸ hb⟩

theorem laterExpiry_eq_or (x y : Option Instant) : laterExpiry x y = x ∨ laterExpiry x y = y := by
  rcases x with _ | a
  · exact .inl rfl
  rcases y with _ | b
  · exact .inr rfl
  simp only [laterExpiry]
  split
  · exact .inr rfl
  · exact .inl rfl

namespace Latest

variable {expiries expiries' : List (Option Instant)} {x x' : Option Instant}

theorem singleton (x : Option Instant) : Latest [x] x where
  mem := List.mem_singleton.mpr rfl
  noLater y hy := by
    rw [List.mem_singleton.mp hy]
    exact .refl x

theorem concat (h : Latest expiries x) (y : Option Instant) :
    Latest (expiries ++ [y]) (laterExpiry x y) where
  mem := by
    rcases laterExpiry_eq_or x y with heq | heq
    · rw [heq]
      exact List.mem_append_left _ h.mem
    · rw [heq]
      exact List.mem_append_right _ (List.mem_singleton.mpr rfl)
  noLater z hz := by
    rcases List.mem_append.mp hz with hz | hz
    · exact (h.noLater z hz).trans (noLater_laterExpiry x y).1
    · rw [List.mem_singleton.mp hz]
      exact (noLater_laterExpiry x y).2

theorem eq_of_mem_iff (h : Latest expiries x) (h' : Latest expiries' x')
    (hmem : ∀ y, y ∈ expiries' ↔ y ∈ expiries) : x' = x :=
  NoLater.antisymm (h.noLater x' ((hmem x').mp h'.mem)) (h'.noLater x ((hmem x).mpr h.mem))

/-- The latest expiry is ahead as long as one of them is. -/
theorem ahead_iff (h : Latest expiries x) (now : Instant) :
    Ahead now x ↔ ∃ y ∈ expiries, Ahead now y := by
  refine ⟨fun hx ↦ ⟨x, h.mem, hx⟩, ?_⟩
  rintro ⟨y, hy, hahead⟩ t ht
  obtain ⟨s, hs, hle⟩ := h.noLater y hy t ht
  exact Nat.lt_of_lt_of_le (hahead s hs) hle

theorem eq_none_iff (h : Latest expiries x) : x = none ↔ none ∈ expiries := by
  constructor
  · rintro rfl
    exact h.mem
  · intro hnone
    exact NoLater.antisymm nofun (h.noLater none hnone)

end Latest

/-! ### Sizes of sets -/

theorem Dictionary.length_place {α : Type} {name : String} {l : List (String × α)} (v : α)
    (h : find name l = none) : (place name v l).length = l.length + 1 := by
  induction l with
  | nil => rfl
  | cons e rest ih =>
    obtain ⟨k, w⟩ := e
    rw [find] at h
    split at h
    · cases h
    · rename_i hne
      rw [place, if_neg (Ne.symm hne)]
      split
      · rfl
      · rw [List.length_cons, ih h, List.length_cons]

namespace NameSet

variable {set set' : NameSet}

theorem size_add {name : String} (h : ¬ set.contains name = true) :
    (set.add name).size = set.size + 1 := by
  rw [Dictionary.contains, Option.not_isSome_iff_eq_none] at h
  exact Dictionary.length_place () h

theorem ext_contains (h : ∀ name, set.contains name = true ↔ set'.contains name = true) :
    set = set' := by
  refine Dictionary.ext_get? fun name ↦ ?_
  have hname := h name
  rw [Dictionary.contains, Dictionary.contains] at hname
  cases hs : set.get? name <;> cases hs' : set'.get? name <;> simp [hs, hs'] at hname ⊢

/-- As many names are new as the set becomes greater by. -/
theorem size_addNew (names : List String) (set : NameSet) :
    set.size + (Entries.addNew names set).1 = (Entries.addNew names set).2.size := by
  induction names generalizing set with
  | nil => rfl
  | cons name rest ih =>
    rw [Entries.addNew]
    split
    · exact ih set
    · rename_i hname
      have hrest := ih (set.add name)
      rw [size_add hname] at hrest
      simp only
      omega

end NameSet

/-! ### Calls -/

/-- Names that join a set at an instant, which is to last for a time from then on. -/
structure Joining where
  now : Instant
  names : List String
  ttl : Duration

namespace Joining

def expiry (j : Joining) : Option Instant := deadline j.now j.ttl

/-- Does no call come before one that stands before it? -/
def Ordered (calls : List Joining) : Prop := calls.Pairwise fun i j ↦ i.now.nanos ≤ j.now.nanos

/-- Does each call but the first come before one of the expiries that stand before it? -/
def Unbroken (calls : List Joining) : Prop :=
  ∀ before j after, calls = before ++ j :: after → before ≠ [] →
    ∃ i ∈ before, Ahead j.now i.expiry

/-- The same without regard to the order of calls at one instant. -/
def Covered (calls : List Joining) : Prop :=
  ∀ j ∈ calls, (∃ i ∈ calls, i.now.nanos < j.now.nanos) →
    ∃ i ∈ calls, i.now.nanos < j.now.nanos ∧ Ahead j.now i.expiry

variable {calls calls' : List Joining}

theorem Ordered.first_le {after : List Joining} {i j : Joining} (h : Ordered (j :: after))
    (hi : i ∈ j :: after) : j.now.nanos ≤ i.now.nanos := by
  rcases List.mem_cons.mp hi with rfl | hi
  · exact Nat.le_refl _
  · exact (List.pairwise_cons.mp h).1 i hi

/-- Calls can be cut where the first stands that does not come before a given one. -/
theorem exists_cut {j : Joining} (hj : j ∈ calls) :
    ∃ before k after, calls = before ++ k :: after ∧ j.now.nanos ≤ k.now.nanos ∧
      ∀ i ∈ before, i.now.nanos < j.now.nanos := by
  have hsome : (calls.find? fun i ↦ j.now.nanos ≤ i.now.nanos).isSome := by
    rw [List.find?_isSome]
    exact ⟨j, hj, by simp⟩
  obtain ⟨k, hfind⟩ := Option.isSome_iff_exists.mp hsome
  obtain ⟨hk, before, after, heq, hbefore⟩ := List.find?_eq_some_iff_append.mp hfind
  exact ⟨before, k, after, heq, by simpa using hk, fun i hi ↦ by simpa using hbefore i hi⟩

theorem Unbroken.covered (h : Unbroken calls) (ho : Ordered calls) : Covered calls := by
  rintro j hj ⟨i₀, hi₀, hlt⟩
  obtain ⟨before, k, after, rfl, hk, hbefore⟩ := exists_cut hj
  have hne : before ≠ [] := by
    rintro rfl
    have hfirst : k.now.nanos ≤ i₀.now.nanos := ho.first_le hi₀
    omega
  obtain ⟨i, hi, hahead⟩ := h before k after rfl hne
  exact ⟨i, List.mem_append_left _ hi, hbefore i hi,
    fun t ht ↦ Nat.lt_of_le_of_lt hk (hahead t ht)⟩

theorem Covered.unbroken (h : Covered calls) (ho : Ordered calls) : Unbroken calls := by
  rintro before j after rfl hne
  obtain ⟨i₀, rest, rfl⟩ := List.exists_cons_of_ne_nil hne
  by_cases hlt : i₀.now.nanos < j.now.nanos
  · obtain ⟨i, hi, hi_lt, hahead⟩ := h j (by simp) ⟨i₀, by simp, hlt⟩
    refine ⟨i, ?_, hahead⟩
    rcases List.mem_append.mp hi with hi | hi
    · exact hi
    · have hfrom : Ordered (j :: after) := (List.pairwise_append.mp ho).2.1
      exact absurd (hfrom.first_le hi) (Nat.not_le_of_lt hi_lt)
  · -- The first call comes at the instant of this one, and what it makes lasts beyond that.
    have hle : i₀.now.nanos ≤ j.now.nanos := ho.first_le (by simp)
    have hsame : j.now = i₀.now := congrArg Instant.mk (by omega : j.now.nanos = i₀.now.nanos)
    refine ⟨i₀, by simp, ?_⟩
    rw [hsame]
    exact ahead_deadline i₀.now i₀.ttl

/-- Calls that are put into another order, each at its instant, are unbroken as they were. -/
theorem Unbroken.of_mem_iff (h : Unbroken calls) (ho : Ordered calls) (ho' : Ordered calls')
    (hmem : ∀ j, j ∈ calls' ↔ j ∈ calls) : Unbroken calls' := by
  refine Covered.unbroken (fun j hj hearlier ↦ ?_) ho'
  simp only [hmem] at hj hearlier ⊢
  exact h.covered ho j hj hearlier

end Joining

/-- Is a set what calls have made, one after another? -/
structure Grown (calls : List Joining) (set : NameSet) (x : Option Instant) : Prop where
  holds : ∀ name, set.contains name = true ↔ ∃ j ∈ calls, name ∈ j.names
  latest : Latest (calls.map Joining.expiry) x

namespace Grown

variable {calls calls' : List Joining} {set set' : NameSet} {x x' : Option Instant}

theorem singleton (j : Joining) : Grown [j] (.ofNames j.names) j.expiry where
  holds name := by simp [NameSet.contains_ofNames]
  latest := .singleton j.expiry

theorem concat (h : Grown calls set x) (j : Joining) :
    Grown (calls ++ [j]) (Entries.addNew j.names set).2 (laterExpiry x j.expiry) where
  holds name := by
    rw [NameSet.contains_addNew, h.holds]
    simp only [List.mem_append, List.mem_singleton, or_and_right, exists_or, exists_eq_left]
    exact or_comm
  latest := by
    rw [List.map_append]
    exact h.latest.concat j.expiry

theorem ahead_iff (h : Grown calls set x) (now : Instant) :
    Ahead now x ↔ ∃ i ∈ calls, Ahead now i.expiry := by
  rw [h.latest.ahead_iff]
  simp

theorem eq_of_mem_iff (h : Grown calls set x) (h' : Grown calls' set' x')
    (hmem : ∀ j, j ∈ calls' ↔ j ∈ calls) : set' = set ∧ x' = x := by
  refine ⟨NameSet.ext_contains fun name ↦ ?_, h.latest.eq_of_mem_iff h'.latest fun y ↦ ?_⟩
  · rw [h'.holds, h.holds]
    simp only [hmem]
  · simp only [List.mem_map, hmem]

end Grown

namespace Entries

open Joining

variable {key : String} {es : Entries}

/-- Calls one after another: what each is answered, and what they leave. -/
def joinAll (key : String) : List Joining → Entries → List (Except StoreError Nat) × Entries
  | [], es => ([], es)
  | j :: rest, es =>
    let (answer, es) := addNames j.now key j.names j.ttl es
    let (answers, es) := joinAll key rest es
    (answer :: answers, es)

/-- Does each call find something live under the name? -/
def Finding (key : String) : List Joining → Entries → Prop
  | [], _ => True
  | j :: rest, es =>
    (es.live? j.now key).isSome ∧ Finding key rest (addNames j.now key j.names j.ttl es).2

/-- Calls in the course of time. The first finds nothing under the name, and each of the others what
those before it have left. -/
structure Timely (key : String) (es : Entries) (first : Joining) (rest : List Joining) : Prop where
  absent : es.live? first.now key = none
  ordered : Ordered (first :: rest)
  finding : Finding key rest (addNames first.now key first.names first.ttl es).2

theorem insert_purge (now : Instant) (key : String) (e : Entry) (es : Entries) :
    (es.purge now key).insert key e = es.insert key e := by
  refine Dictionary.ext_get? fun other ↦ ?_
  rw [Dictionary.get?_insert, Dictionary.get?_insert]
  split
  · rfl
  · rename_i hne
    unfold purge
    split
    · split
      · rfl
      · rw [Dictionary.get?_erase, if_neg hne]
    · rfl

theorem insert_insert (key : String) (e e' : Entry) (es : Entries) :
    (es.insert key e).insert key e' = es.insert key e' := by
  refine Dictionary.ext_get? fun other ↦ ?_
  simp only [Dictionary.get?_insert]
  split <;> rfl

/-- Names that find nothing make a set of their own. -/
theorem addNames_of_absent {j : Joining} (h : es.live? j.now key = none) :
    addNames j.now key j.names j.ttl es = (.ok (NameSet.ofNames j.names).size,
      es.insert key ⟨.names (.ofNames j.names), j.expiry⟩) := by
  simp only [addNames, get?_purge, h, insert_purge]
  rfl

/-- Names join the set that they find. -/
theorem addNames_of_ahead {j : Joining} {set : NameSet} {x : Option Instant}
    (h : es.get? key = some ⟨.names set, x⟩) (hx : Ahead j.now x) :
    addNames j.now key j.names j.ttl es = (.ok (addNew j.names set).1,
      es.insert key ⟨.names (addNew j.names set).2, laterExpiry x j.expiry⟩) := by
  have hlive : es.live? j.now key = some ⟨.names set, x⟩ := by
    rw [live?, h, Option.filter_eq_some_iff]
    exact ⟨rfl, isLive_iff_ahead.mpr hx⟩
  simp only [addNames, get?_purge, hlive, insert_purge]
  rfl

theorem isSome_live?_iff {set : NameSet} {x : Option Instant}
    (h : es.get? key = some ⟨.names set, x⟩) (now : Instant) :
    (es.live? now key).isSome = true ↔ Ahead now x := by
  have hahead : Entry.isLive ⟨.names set, x⟩ now = true ↔ Ahead now x := isLive_iff_ahead
  rw [live?, h, Option.isSome_filter, ← hahead]
  rfl

/-- Each call finds the set exactly if one of the expiries so far is ahead. -/
theorem finding_iff {done rest : List Joining} {set : NameSet} {x : Option Instant}
    (hgrown : Grown done set x) (hes : es.get? key = some ⟨.names set, x⟩) :
    Finding key rest es ↔ ∀ before j after, rest = before ++ j :: after →
      ∃ i ∈ done ++ before, Ahead j.now i.expiry := by
  induction rest generalizing done es set x with
  | nil => exact iff_of_true trivial fun before j after h ↦ by simp at h
  | cons j rest ih =>
    rw [Finding, isSome_live?_iff hes]
    constructor
    · rintro ⟨hx, hrest⟩ before j' after heq
      rw [addNames_of_ahead hes hx] at hrest
      have hnext := (ih (hgrown.concat j) (by simp)).mp hrest
      cases before with
      | nil =>
        obtain ⟨rfl, -⟩ := List.cons.inj heq
        rw [List.append_nil]
        exact (hgrown.ahead_iff j.now).mp hx
      | cons i before =>
        obtain ⟨rfl, rfl⟩ := List.cons.inj heq
        obtain ⟨i, hi, hahead⟩ := hnext before j' after rfl
        exact ⟨i, by simpa using hi, hahead⟩
    · intro h
      have hfirst := h [] j rest rfl
      rw [List.append_nil, ← hgrown.ahead_iff] at hfirst
      refine ⟨hfirst, ?_⟩
      rw [addNames_of_ahead hes hfirst]
      refine (ih (hgrown.concat j) (by simp)).mpr fun before j' after heq ↦ ?_
      obtain ⟨i, hi, hahead⟩ := h (j :: before) j' after (by rw [heq]; rfl)
      exact ⟨i, by simpa using hi, hahead⟩

/-- Calls that find a set answer by how much it becomes greater, and leave what it has become. -/
theorem joinAll_of_grown {done rest : List Joining} {set : NameSet} {x : Option Instant}
    (hgrown : Grown done set x) (hes : es.get? key = some ⟨.names set, x⟩)
    (hrest : Finding key rest es) :
    ∃ set' x', ∃ counts : List Nat, joinAll key rest es =
        (counts.map .ok, es.insert key ⟨.names set', x'⟩) ∧
      Grown (done ++ rest) set' x' ∧ set.size + counts.sum = set'.size := by
  induction rest generalizing done es set x with
  | nil =>
    have hsame : es.insert key ⟨.names set, x⟩ = es := by
      refine Dictionary.ext_get? fun other ↦ ?_
      rw [Dictionary.get?_insert]
      split
      · rename_i heq
        rw [← heq, hes]
      · rfl
    refine ⟨set, x, [], ?_, by rwa [List.append_nil], rfl⟩
    rw [hsame]
    rfl
  | cons j rest ih =>
    obtain ⟨hfound, hrest⟩ := hrest
    have hjoin := addNames_of_ahead hes ((isSome_live?_iff hes j.now).mp hfound)
    rw [hjoin] at hrest
    obtain ⟨set', x', counts, hall, hgrown', hsize⟩ := ih (hgrown.concat j) (by simp) hrest
    refine ⟨set', x', (addNew j.names set).1 :: counts, ?_, ?_, ?_⟩
    · rw [joinAll, hjoin]
      simp only [hall, insert_insert]
      rfl
    · rwa [List.append_assoc] at hgrown'
    · have hnew := NameSet.size_addNew j.names set
      rw [List.sum_cons]
      omega

theorem finding_iff_unbroken {first : Joining} {rest : List Joining}
    (habsent : es.live? first.now key = none) :
    Finding key rest (addNames first.now key first.names first.ttl es).2 ↔
      Unbroken (first :: rest) := by
  rw [addNames_of_absent habsent, finding_iff (.singleton first) (by simp)]
  constructor
  · rintro h before j after heq hne
    obtain ⟨i, before, rfl⟩ := List.exists_cons_of_ne_nil hne
    obtain ⟨rfl, rfl⟩ := List.cons.inj heq
    exact h before j after rfl
  · intro h before j after heq
    exact h (first :: before) j after (by rw [heq]; rfl) (List.cons_ne_nil _ _)

namespace Timely

variable {first first' : Joining} {rest rest' : List Joining}

theorem grows (h : Timely key es first rest) :
    ∃ set x, ∃ counts : List Nat, joinAll key (first :: rest) es =
        (counts.map .ok, es.insert key ⟨.names set, x⟩) ∧
      Grown (first :: rest) set x ∧ counts.sum = set.size := by
  have hfinding := h.finding
  rw [addNames_of_absent h.absent] at hfinding
  obtain ⟨set, x, counts, hall, hgrown, hsize⟩ :=
    joinAll_of_grown (.singleton first) (by simp) hfinding
  refine ⟨set, x, (NameSet.ofNames first.names).size :: counts, ?_, hgrown, hsize⟩
  rw [joinAll, addNames_of_absent h.absent]
  simp only [hall, insert_insert]
  rfl

theorem of_mem_iff (h : Timely key es first rest) (ho : Ordered (first' :: rest'))
    (hmem : ∀ j, j ∈ first' :: rest' ↔ j ∈ first :: rest) : Timely key es first' rest' := by
  have hle : first'.now.nanos ≤ first.now.nanos :=
    ho.first_le ((hmem first).mpr List.mem_cons_self)
  have hge : first.now.nanos ≤ first'.now.nanos :=
    h.ordered.first_le ((hmem first').mp List.mem_cons_self)
  have hnow : first'.now = first.now := congrArg Instant.mk (Nat.le_antisymm hle hge)
  have habsent : es.live? first'.now key = none := hnow ▸ h.absent
  have hunbroken : Unbroken (first :: rest) := (finding_iff_unbroken h.absent).mp h.finding
  exact ⟨habsent, ho,
    (finding_iff_unbroken habsent).mpr (hunbroken.of_mem_iff h.ordered ho hmem)⟩

end Timely

/-- The set that calls leave has the names of all and the latest of their expiries, which is to last
for ever once one of them is; they find as many new names as it has. The same calls leave the same
set in any order in which none comes before an earlier one. -/
theorem joinAll_grows {first : Joining} {rest : List Joining} (h : Timely key es first rest) :
    ∃ (set : NameSet) (x : Option Instant) (counts : List Nat),
      joinAll key (first :: rest) es = (counts.map .ok, es.insert key ⟨.names set, x⟩) ∧
      (∀ name, set.contains name = true ↔ ∃ j ∈ first :: rest, name ∈ j.names) ∧
      Latest ((first :: rest).map Joining.expiry) x ∧
      (x = none ↔ ∃ j ∈ first :: rest, j.expiry = none) ∧
      counts.sum = set.size ∧
      ∀ first' rest', (∀ j, j ∈ first' :: rest' ↔ j ∈ first :: rest) → Ordered (first' :: rest') →
        ∃ counts' : List Nat,
          joinAll key (first' :: rest') es =
            (counts'.map .ok, es.insert key ⟨.names set, x⟩) ∧
          counts'.sum = set.size := by
  obtain ⟨set, x, counts, hall, hgrown, hsum⟩ := h.grows
  refine ⟨set, x, counts, hall, hgrown.holds, hgrown.latest, ?_, hsum, ?_⟩
  · rw [hgrown.latest.eq_none_iff, List.mem_map]
  · intro first' rest' hmem ho
    obtain ⟨set', x', counts', hall', hgrown', hsum'⟩ := (h.of_mem_iff ho hmem).grows
    obtain ⟨rfl, rfl⟩ := hgrown.eq_of_mem_iff hgrown' hmem
    exact ⟨counts', hall', hsum'⟩

/-- Three names, of which the second call finds one new, and a time to live that never ends. -/
theorem joinAll_grows_unending :
    let es : Entries := .empty
    let first : Joining := ⟨⟨0⟩, ["main", "ci", "main"], .ofSecs 5⟩
    let second : Joining := ⟨⟨1_000_000_000⟩, ["ci", "queue"], .longest⟩
    let third : Joining := ⟨⟨1_000_000_000⟩, ["queue"], .ofSecs 1⟩
    Timely "configs" es first [second, third] ∧
      ∃ (set : NameSet) (counts : List Nat), joinAll "configs" [first, second, third] es =
          (counts.map .ok, es.insert "configs" ⟨.names set, none⟩) ∧
        counts.sum = set.size ∧ set.contains "queue" = true ∧
        ∃ counts' : List Nat, joinAll "configs" [first, third, second] es =
            (counts'.map .ok, es.insert "configs" ⟨.names set, none⟩) ∧
          counts'.sum = set.size := by
  intro es first second third
  have htimely : Timely "configs" es first [second, third] :=
    ⟨rfl, by simp [Ordered, first, second, third], by
      simp only [Finding]
      decide +kernel⟩
  obtain ⟨set, x, counts, hall, hholds, -, hnone, hsum, horder⟩ := joinAll_grows htimely
  obtain rfl : x = none := hnone.mpr ⟨second, by simp, by decide +kernel⟩
  refine ⟨htimely, set, counts, hall, hsum, (hholds "queue").mpr ⟨second, by simp, by decide⟩, ?_⟩
  refine horder first [third, second] (fun j ↦ ?_) (by simp [Ordered, first, second, third])
  simp only [List.mem_cons, List.not_mem_nil, or_false]
  exact or_congr_right or_comm

end Entries

end UniqueJobs
