import UniqueJobs.Proofs.Site.Call

/-!
The course that the calls of one claimant take at a site. Clocks, workers and switches stand still,
and the entries change in calls alone, each time as one contact would have them. What contacts keep
is thereby kept by a whole course.
-/

namespace UniqueJobs.Site

open Entries

/-- What no call and no event changes; the cues are only ever used up. -/
structure Steady (s s' : Site) : Prop where
  clock : s'.clock = s.clock
  workers : s'.workers = s.workers
  off : s'.off = s.off
  available : s'.store.available = s.store.available
  cues : ∀ q ∈ s'.cues, q ∈ s.cues

structure Rests (s s' : Site) : Prop extends Steady s s' where
  entries : s'.store.entries = s.store.entries

namespace Steady

variable {s s' s'' : Site}

theorem refl (s : Site) : Steady s s := ⟨rfl, rfl, rfl, rfl, fun _ h ↦ h⟩

theorem trans (h : Steady s s') (h' : Steady s' s'') : Steady s s'' where
  clock := h'.clock.trans h.clock
  workers := h'.workers.trans h.workers
  off := h'.off.trans h.off
  available := h'.available.trans h.available
  cues q hq := h.cues q (h'.cues q hq)

theorem honest (h : Steady s s') (hs : s.Honest) : s'.Honest := fun q hq ↦ hs q (h.cues q hq)

end Steady

namespace Rests

variable {s s' s'' : Site}

theorem refl (s : Site) : Rests s s := ⟨.refl s, rfl⟩

theorem trans (h : Rests s s') (h' : Rests s' s'') : Rests s s'' :=
  ⟨h.toSteady.trans h'.toSteady, h'.entries.trans h.entries⟩

theorem emitted (e : Event) (s : Site) : Rests s (s.emitted e) :=
  ⟨⟨rfl, rfl, rfl, rfl, fun _ h ↦ h⟩, rfl⟩

end Rests

section

variable {α : Type} {kind : CallKind} {f : Entries → Except StoreError α × Entries} {s : Site}

theorem steady_call : Steady s (s.call kind f).2 := by
  rw [call]
  cases s.refusal? kind with
  | none => exact ⟨rfl, rfl, rfl, rfl, mem_of_mem_pop kind s.cues⟩
  | some e => exact ⟨rfl, rfl, rfl, rfl, mem_of_mem_pop kind s.cues⟩

theorem call_of_refusal_eq_some {e : StoreError} (h : s.refusal? kind = some e) :
    (s.call kind f).1 = .error e ∧ (s.call kind f).2.store.entries = s.store.entries := by
  simp only [call, h, and_self]

theorem call_of_refusal_eq_none (h : s.refusal? kind = none) :
    (s.call kind f).1 = (f s.store.entries).1 ∧
      (s.call kind f).2.store.entries = (f s.store.entries).2 := by
  simp only [call, h, and_self]

end

/-- The entries after a call are as they were or as an allowed contact leaves them. -/
structure Touches (c : Claimant) (allowed : Contact → Prop) (s s' : Site) : Prop
    extends Steady s s' where
  entries : s'.store.entries = s.store.entries ∨
    ∃ contact, allowed contact ∧ s'.store.entries = contact.effect c s.clock s.store.entries

theorem touches_call {c : Claimant} {allowed : Contact → Prop} {α : Type} {kind : CallKind}
    {f : Entries → Except StoreError α × Entries} {s : Site} (contact : Contact)
    (hallowed : allowed contact)
    (hf : (f s.store.entries).2 = contact.effect c s.clock s.store.entries) :
    Touches c allowed s (s.call kind f).2 := by
  refine ⟨steady_call, ?_⟩
  cases h : s.refusal? kind with
  | some e => exact .inl (call_of_refusal_eq_some h).2
  | none => exact .inr ⟨contact, hallowed, (call_of_refusal_eq_none h).2.trans hf⟩

/-- The calls of a claimant, with nothing between them that matters to the store. -/
inductive Course (c : Claimant) (allowed : Contact → Prop) :
    Site → List (Site × Site) → Site → Prop
  | rest {s s' : Site} (h : Rests s s') : Course c allowed s [] s'
  | call {s s₁ s₂ s' : Site} {calls : List (Site × Site)} (h : Rests s s₁)
      (htouches : Touches c allowed s₁ s₂) (hrest : Course c allowed s₂ calls s') :
      Course c allowed s ((s₁, s₂) :: calls) s'

namespace Course

variable {c : Claimant} {allowed : Contact → Prop} {s s' : Site} {calls : List (Site × Site)}

theorem mono {allowed' : Contact → Prop} (h : Course c allowed s calls s')
    (himp : ∀ contact, allowed contact → allowed' contact) : Course c allowed' s calls s' := by
  induction h with
  | rest hr => exact .rest hr
  | call hr htouches _ ih =>
    refine .call hr ⟨htouches.toSteady, ?_⟩ ih
    rcases htouches.entries with he | ⟨contact, hallowed, he⟩
    · exact .inl he
    · exact .inr ⟨contact, himp contact hallowed, he⟩

theorem one (h : Touches c allowed s s') (hr : Rests s' s'') :
    Course c allowed s [(s, s')] s'' := .call (.refl s) h (.rest hr)

theorem steady (h : Course c allowed s calls s') : Steady s s' := by
  induction h with
  | rest hr => exact hr.toSteady
  | call hr htouches _ ih => exact (hr.toSteady.trans htouches.toSteady).trans ih

/-- A property of entries that every contact of the course keeps is kept by the course. -/
theorem preserves {P : Entries → Prop} (h : Course c allowed s calls s')
    (hP : ∀ contact es, allowed contact → P es → P (contact.effect c s.clock es))
    (hs : P s.store.entries) : P s'.store.entries := by
  induction h with
  | rest hr => rwa [hr.entries]
  | call hr htouches _ ih =>
    refine ih ?_ ?_
    · rwa [htouches.clock, hr.clock]
    · rcases htouches.entries with he | ⟨contact, hallowed, he⟩
      · rwa [he, hr.entries]
      · rw [he, hr.entries, hr.clock]
        exact hP contact _ hallowed hs

theorem sound (h : Course c allowed s calls s') (hs : Sound c.key s.clock s.store.entries) :
    Sound c.key s'.clock s'.store.entries := by
  rw [h.steady.clock]
  exact h.preserves (fun contact es _ hes ↦ hes.effect contact) hs

theorem keepsTexts (h : Course c allowed s calls s') (hrelease : ¬ allowed .release) :
    KeepsTexts s.clock s.store.entries s'.store.entries := by
  refine h.preserves (P := KeepsTexts s.clock s.store.entries) ?_ (.refl _)
  intro contact es hallowed hes
  have hne : contact ≠ .release := by
    intro heq
    subst heq
    exact hrelease hallowed
  exact hes.trans (Contact.keepsTexts c s.clock es hne)

end Course

end UniqueJobs.Site
