import UniqueJobs.Proofs.Store.Procedures
import UniqueJobs.Proofs.Text.Numeral

/-!
The list that evaluations of `Procedure.advance` leave under one name. Main statements:
`live?_advance_list`, what one evaluation makes of the list, and `live?_evaluateAll`, that in the
end it holds the first of the greatest offsets and expires when the first evaluation had it expire.
-/

namespace UniqueJobs

/-- The first of the elements at which `f` is greatest. -/
def FirstGreatest {α : Type} (f : α → Int64) (l : List α) (a : α) : Prop :=
  ∃ before after, l = before ++ a :: after ∧ (∀ b ∈ before, f b < f a) ∧ ∀ b ∈ after, f b ≤ f a

namespace FirstGreatest

variable {α β : Type} {f : α → Int64} {l : List α} {a : α}

theorem singleton (f : α → Int64) (a : α) : FirstGreatest f [a] a :=
  ⟨[], [], rfl, by simp, by simp⟩

theorem mem (h : FirstGreatest f l a) : a ∈ l := by
  obtain ⟨before, after, rfl, -, -⟩ := h
  simp

theorem le (h : FirstGreatest f l a) {b : α} (hb : b ∈ l) : f b ≤ f a := by
  obtain ⟨before, after, rfl, hbefore, hafter⟩ := h
  simp only [List.mem_append, List.mem_cons] at hb
  rcases hb with hb | rfl | hb
  · exact Int64.le_of_lt (hbefore b hb)
  · exact Int64.le_refl _
  · exact hafter b hb

/-- Only a greater value takes the place of the one that was first. -/
theorem concat (h : FirstGreatest f l a) (b : α) :
    FirstGreatest f (l ++ [b]) (if f a < f b then b else a) := by
  by_cases hlt : f a < f b
  · rw [if_pos hlt]
    exact ⟨l, [], rfl, fun d hd ↦ Int64.lt_of_le_of_lt (h.le hd) hlt, by simp⟩
  · rw [if_neg hlt]
    obtain ⟨before, after, rfl, hbefore, hafter⟩ := h
    refine ⟨before, after ++ [b], by simp, hbefore, ?_⟩
    intro d hd
    rcases List.mem_append.mp hd with hd | hd
    · exact hafter d hd
    · rw [List.mem_singleton.mp hd]
      exact Int64.not_lt.mp hlt

theorem eq_of_perm {g : β → Int64} {m : List β} {b : β} (h : FirstGreatest f l a)
    (h' : FirstGreatest g m b) (hperm : (m.map g).Perm (l.map f)) : g b = f a := by
  obtain ⟨a', ha', heq⟩ := List.mem_map.mp (hperm.subset (List.mem_map_of_mem h'.mem))
  obtain ⟨b', hb', heq'⟩ := List.mem_map.mp (hperm.symm.subset (List.mem_map_of_mem h.mem))
  apply Int64.le_antisymm
  · rw [← heq]
    exact h.le ha'
  · rw [← heq']
    exact h'.le hb'

end FirstGreatest

/-- The entry of a location and its offset. -/
def Entry.position (location : String) (offset : Int64) (expiresAt : Option Instant) : Entry :=
  ⟨.list [location, toString offset.toInt], expiresAt⟩

namespace Entries

variable {now : Instant} {list : String}

theorem storedOffset?_position (location : String) (offset : Int64) :
    storedOffset? [location, toString offset.toInt] = some offset := by
  change (Text.readInt64 (toString offset.toInt).toList).toOption = some offset
  rw [Text.readInt64_toString]
  rfl

theorem raised_position (location : String) (offset : Int64) (expiry : Option Instant)
    (location' : String) (offset' : Int64) (x : Option Instant) :
    raised location offset expiry (some (.position location' offset' x)) =
      if offset' < offset then some (.position location offset x)
      else some (.position location' offset' x) := by
  simp only [Entry.position, raised_list, storedOffset?_position]

theorem raise_fst_of_ok {location : String} {offset : Int64} {ttl : Duration} {es : Entries}
    (h : (raise now list location offset ttl es).1 = .ok ()) (x : Option Instant) :
    ∃ items y, raised location offset x (es.live? now list) = some ⟨.list items, y⟩ := by
  simp only [raise, get?_purge] at h
  generalize es.live? now list = found at h ⊢
  rcases found with _ | ⟨_ | items | _, y⟩
  · exact ⟨_, _, rfl⟩
  · cases h
  · rw [raised_list]
    cases hstored : storedOffset? items with
    | none =>
      unfold storedOffset? at hstored
      simp [hstored] at h
    | some current =>
      simp only
      split <;> exact ⟨_, _, rfl⟩
  · cases h

/-- What an evaluation makes of its list, whatever key it is given for the set of configs. -/
theorem live?_advance_list {offsetText ttlText : String} {offset : Int64} {millis : Nat}
    (hoffset : Text.readInt64 offsetText.toList = .ok offset)
    (httl : Text.readNat 10 (UInt64.size - 1) ttlText.toList = .ok millis)
    (configs location config : String) (es : Entries) :
    live? now list (runProcedure now .advance [list, configs]
        [location, offsetText, ttlText, config] es).2 =
      raised location offset (deadline now (.ofMillis millis)) (es.live? now list) := by
  have hraise := @live?_raise now list location offset (.ofMillis millis) es list
  rw [if_pos rfl] at hraise
  rw [← hraise]
  simp only [runProcedure, advance, hoffset, httl]
  rcases h : raise now list location offset (.ofMillis millis) es with ⟨e | u, es'⟩
  · rfl
  · rw [h] at hraise
    simp only [live?_addNames]
    by_cases hne : configs = list
    · -- The key of the set may be that of the list, which is no set then.
      obtain ⟨items, y, hitems⟩ := raise_fst_of_ok (congrArg Prod.fst h)
        (deadline now (.ofMillis millis))
      rw [hitems] at hraise
      rw [if_pos hne, hne, hraise]
      rfl
    · rw [if_neg hne]

end Entries

/-- One evaluation of the procedure, at an instant and with numbers that can be read. -/
structure Evaluation where
  now : Instant
  configs : String
  location : String
  offsetText : String
  offset : Int64
  reads_offset : Text.readInt64 offsetText.toList = .ok offset
  ttlText : String
  ttl : Nat
  reads_ttl : Text.readNat 10 (UInt64.size - 1) ttlText.toList = .ok ttl
  config : String

namespace Evaluation

def expiry (e : Evaluation) : Option Instant := deadline e.now (.ofMillis e.ttl)

def position (e : Evaluation) (expiresAt : Option Instant) : Entry :=
  .position e.location e.offset expiresAt

/-- Time goes on from one evaluation to the next, and to an instant after the last one. -/
def Successive : Instant → List Evaluation → Instant → Prop
  | now, [], t => now.nanos ≤ t.nanos
  | now, e :: rest, t => now.nanos ≤ e.now.nanos ∧ Successive e.now rest t

theorem Successive.le {now t : Instant} {evaluations : List Evaluation}
    (h : Successive now evaluations t) : now.nanos ≤ t.nanos := by
  induction evaluations generalizing now with
  | nil => exact h
  | cons e rest ih => exact Nat.le_trans h.1 (ih h.2)

/-- Evaluations that begin where there is no list and end, at `t`, before it expires. -/
structure Uninterrupted (list : String) (es : Entries)
    (first : Evaluation) (rest : List Evaluation) (t : Instant) : Prop where
  absent : es.live? first.now list = none
  successive : Successive first.now rest t
  unexpired : ∀ x, first.expiry = some x → t.nanos < x.nanos

end Evaluation

namespace Entries

open Evaluation

variable {list : String}

def evaluate (list : String) (es : Entries) (e : Evaluation) : Entries :=
  (es.runProcedure e.now .advance [list, e.configs]
    [e.location, e.offsetText, e.ttlText, e.config]).2

def evaluateAll (list : String) (evaluations : List Evaluation) (es : Entries) : Entries :=
  evaluations.foldl (evaluate list) es

theorem live?_evaluate (e : Evaluation) (es : Entries) :
    live? e.now list (es.evaluate list e) =
      raised e.location e.offset e.expiry (es.live? e.now list) :=
  live?_advance_list e.reads_offset e.reads_ttl e.configs e.location e.config es

theorem live?_evaluate_position {e best : Evaluation} {es : Entries} {x : Option Instant}
    (h : es.live? e.now list = some (best.position x)) :
    live? e.now list (es.evaluate list e) =
      some ((if best.offset < e.offset then e else best).position x) := by
  rw [live?_evaluate, h]
  unfold position
  rw [raised_position]
  split <;> rfl

theorem live?_evaluateAll {now t : Instant} {done rest : List Evaluation} {best : Evaluation}
    {es : Entries} {x : Option Instant} (hbest : FirstGreatest offset done best)
    (hlive : es.live? now list = some (best.position x)) (hrest : Successive now rest t)
    (hx : ∀ content, Entry.isLive ⟨content, x⟩ t = true) :
    ∃ e, FirstGreatest offset (done ++ rest) e ∧
      live? t list (es.evaluateAll list rest) = some (e.position x) := by
  induction rest generalizing now done best es with
  | nil =>
    refine ⟨best, by rwa [List.append_nil], ?_⟩
    rw [evaluateAll, List.foldl_nil, live?_of_le hrest, hlive]
    exact Option.filter_eq_some_iff.mpr ⟨rfl, hx _⟩
  | cons e rest ih =>
    obtain ⟨hnow, hrest⟩ := hrest
    have hstill : es.live? e.now list = some (best.position x) := by
      rw [live?_of_le hnow, hlive]
      exact Option.filter_eq_some_iff.mpr ⟨rfl, Entry.isLive_mono hrest.le (hx _)⟩
    obtain ⟨last, hlast, hfound⟩ := ih (hbest.concat e) (live?_evaluate_position hstill) hrest
    rw [List.append_assoc] at hlast
    exact ⟨last, hlast, hfound⟩

theorem exists_firstGreatest {t : Instant} {first : Evaluation} {rest : List Evaluation}
    {es : Entries} (h : Uninterrupted list es first rest t) :
    ∃ e, FirstGreatest offset (first :: rest) e ∧
      live? t list (es.evaluateAll list (first :: rest)) = some (e.position first.expiry) := by
  have hfirst : live? first.now list (es.evaluate list first) =
      some (first.position first.expiry) := by
    rw [live?_evaluate, h.absent]
    rfl
  apply live?_evaluateAll (.singleton offset first) hfirst h.successive
  intro content
  cases hx : first.expiry with
  | none => rfl
  | some x => exact decide_eq_true (h.unexpired x hx)

end Entries

end UniqueJobs
