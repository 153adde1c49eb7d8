import UniqueJobs.Proofs.Journal.Basic

/-!
Acts that come to an end. `Ends` is the judgement that passages are made of: unless the calendar
ends before, the act comes to an end, and what holds of its outcome, of the notes that it leaves and
of the site afterwards.
-/

namespace UniqueJobs

def Overdue (wall : Nat) : Prop := Timestamp.ofNanos? wall = none

theorem overdue_iff {wall : Nat} : Overdue wall ↔ 8_210_266_876_800 ≤ wall / 1_000_000_000 := by
  have hsecond : Timestamp.InSecond ((wall : Int) / 1_000_000_000)
      ((wall : Int) % 1_000_000_000).toNat := by
    apply Or.inl
    omega
  rw [Overdue, Timestamp.ofNanos?, Timestamp.ofParts?]
  by_cases h : Timestamp.InCalendar ((wall : Int) / 1_000_000_000)
  · rw [dif_pos ⟨h, hsecond⟩]
    simp only [reduceCtorEq, false_iff]
    unfold Timestamp.InCalendar at h
    omega
  · rw [dif_neg fun hdate ↦ h hdate.1]
    simp only [true_iff]
    unfold Timestamp.InCalendar at h
    omega

theorem Overdue.mono {wall later : Nat} (h : Overdue wall) (hle : wall ≤ later) :
    Overdue later := by
  rw [overdue_iff] at h ⊢
  omega

/-- Unless the calendar ends by `limit`, the act comes to an end, and what holds of its outcome, the
notes and the site afterwards. -/
def Ends {α : Type} (limit : Nat) (x : Journal α) (s : Site) (P : α → List Note → Site → Prop) :
    Prop :=
  ∀ log, (∃ a notes s', (x.run s).run log = some ((a, s'), log ++ notes) ∧ P a notes s') ∨
    ((x.run s).run log = none ∧ Overdue limit)

theorem Journal.run_unseen {α : Type} (y : Site.Act α) (s : Site) (log : List Note) :
    ((unseen y).run s).run log = (y.run s).bind fun p ↦ some (p, log) := rfl

namespace Ends

variable {α β : Type} {limit : Nat} {x : Journal α} {s : Site}
  {P Q : α → List Note → Site → Prop}

theorem imp (h : Ends limit x s P) (hPQ : ∀ a notes s', P a notes s' → Q a notes s') :
    Ends limit x s Q := by
  intro log
  rcases h log with ⟨a, notes, s', hx, hP⟩ | hx
  · exact .inl ⟨a, notes, s', hx, hPQ a notes s' hP⟩
  · exact .inr hx

theorem pure {a : α} (h : P a [] s) : Ends limit (pure a) s P :=
  fun log ↦ .inl ⟨a, [], s, by rw [List.append_nil]; rfl, h⟩

theorem bind {f : α → Journal β} {R : β → List Note → Site → Prop} (h : Ends limit x s P)
    (hf : ∀ a notes s', P a notes s' →
      Ends limit (f a) s' fun b more s'' ↦ R b (notes ++ more) s'') :
    Ends limit (x >>= f) s R := by
  intro log
  have hrun : ((x >>= f).run s).run log =
      ((x.run s).run log).bind fun p ↦ ((f p.1.1).run p.1.2).run p.2 := rfl
  rw [hrun]
  rcases h log with ⟨a, notes, s', hx, hP⟩ | ⟨hx, hlimit⟩
  · rw [hx, Option.bind_some]
    rcases hf a notes s' hP (log ++ notes) with ⟨b, more, s'', hfa, hR⟩ | hfa
    · rw [List.append_assoc] at hfa
      exact .inl ⟨b, notes ++ more, s'', hfa, hR⟩
    · exact .inr hfa
  · rw [hx]
    exact .inr ⟨rfl, hlimit⟩

theorem unseen {y : Site.Act α} {a : α} {s' : Site} (hy : y.run s = some (a, s')) (h : P a [] s') :
    Ends limit (Journal.unseen y) s P := by
  intro log
  refine .inl ⟨a, [], s', ?_, h⟩
  rw [Journal.run_unseen, hy, List.append_nil]
  rfl

theorem enter {f : Site → Note} {P : Unit → List Note → Site → Prop} (h : P () [f s] s) :
    Ends limit (Journal.enter f) s P :=
  fun _ ↦ .inl ⟨(), [f s], s, rfl, h⟩

theorem modify {f : Site → Site} {P : Unit → List Note → Site → Prop} (h : P () [] (f s)) :
    Ends limit (modify f : Journal Unit) s P :=
  fun log ↦ .inl ⟨(), [], f s, by rw [List.append_nil]; rfl, h⟩

theorem seen {caller : Caller} {call : StoreCall} {y : Site.Act (Except StoreError α)}
    {r : Except StoreError α} {s' : Site} {P : Except StoreError α → List Note → Site → Prop}
    (hy : y.run s = some (r, s'))
    (h : P r [.called caller call (Journal.failureOf r) s s'] s') :
    Ends limit (Journal.seen caller call y) s P := by
  intro log
  refine .inl ⟨r, [.called caller call (Journal.failureOf r) s s'], s', ?_, h⟩
  change (StateT.lift (y.run s) >>= fun r ↦ do
    Journal.write (.called caller call (Journal.failureOf r.1) s r.2)
    Pure.pure r : StateT (List Note) Option _).run log = _
  rw [hy]
  rfl

end Ends

end UniqueJobs
