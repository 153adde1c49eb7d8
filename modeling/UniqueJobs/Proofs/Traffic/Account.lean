import UniqueJobs.Proofs.Store.Batch
import UniqueJobs.Proofs.Traffic.Trace

/-!
Who may be blamed for the loss of a window. A performed instance may be, if it is the holder itself,
if its strategy is to release once the job has run, or if it had the window and lost it meanwhile.
-/

namespace UniqueJobs

open Entries

structure Glimpse.Loses (k : JobKey) (holder : JobId) (expiry : Option Instant) (g : Glimpse) :
    Prop where
  before : g.before.store.entries.live? g.before.clock k.text = some ⟨.text holder.text, expiry⟩
  after : g.after.store.entries.live? g.after.clock k.text ≠ some ⟨.text holder.text, expiry⟩

/-- A caller has found the window to be its own in the course of the same passage, and has lost it
since: its time is over, or another call has taken it away. -/
def LostMeanwhile (k : JobKey) (caller : Caller) (first : List Glimpse) (now : Instant) : Prop :=
  ∃ early check later expiry, first = early ++ check :: later ∧ check.caller = caller ∧
    check.after.store.entries.live? check.after.clock k.text =
      some ⟨.text caller.id.text, expiry⟩ ∧
    (Entry.isLive ⟨.text caller.id.text, expiry⟩ now = false ∨
      ∃ g ∈ later, g.Loses k caller.id expiry)

def Blamed (strategy : Strategy) (k : JobKey) (holder : JobId) (first : List Glimpse)
    (g : Glimpse) : Prop :=
  g.caller.stage = .perform ∧ (g.caller.id = holder ∨ strategy = .untilExecuted ∨
    strategy = .untilExecuting ∧ LostMeanwhile k g.caller first g.before.clock)

/-- Every loss of the window is accounted for, call by call. -/
inductive Accounted (strategy : Strategy) (k : JobKey) : List Glimpse → Prop
  | nil : Accounted strategy k []
  | concat {trace : List Glimpse} {g : Glimpse} (h : Accounted strategy k trace)
      (hg : ∀ holder expiry, g.Loses k holder expiry → Blamed strategy k holder trace g) :
      Accounted strategy k (trace ++ [g])

theorem Blamed.mono {strategy : Strategy} {k : JobKey} {holder : JobId} {g : Glimpse}
    {first : List Glimpse} (h : Blamed strategy k holder first g) (trace : List Glimpse) :
    Blamed strategy k holder (trace ++ first) g := by
  obtain ⟨hstage, hid | hstrategy | ⟨hstrategy, early, check, later, expiry, rfl, hcheck⟩⟩ := h
  · exact ⟨hstage, .inl hid⟩
  · exact ⟨hstage, .inr (.inl hstrategy)⟩
  · exact ⟨hstage, .inr (.inr ⟨hstrategy, trace ++ early, check, later, expiry,
      (List.append_assoc ..).symm, hcheck⟩)⟩

namespace Accounted

variable {strategy : Strategy} {k : JobKey} {trace more : List Glimpse}

theorem append (h : Accounted strategy k trace) (h' : Accounted strategy k more) :
    Accounted strategy k (trace ++ more) := by
  induction h' with
  | nil => rwa [List.append_nil]
  | concat _ hg ih =>
    rw [← List.append_assoc]
    exact .concat ih fun holder expiry hloses ↦ (hg holder expiry hloses).mono trace

theorem of_keepsTexts {g : Glimpse} (hcall : Site.Steady g.before g.after)
    (hkeeps : KeepsTexts g.before.clock g.before.store.entries g.after.store.entries) :
    Accounted strategy k [g] := by
  apply Accounted.concat .nil
  intro holder expiry hloses
  have hstill := hkeeps _ _ _ hloses.before
  rw [← hcall.clock] at hstill
  exact absurd hstill hloses.after

theorem blamed (h : Accounted strategy k trace) {first rest : List Glimpse} {g : Glimpse}
    {holder : JobId} {expiry : Option Instant} (htrace : trace = first ++ g :: rest)
    (hloses : g.Loses k holder expiry) : Blamed strategy k holder first g := by
  induction h generalizing rest with
  | nil => simp at htrace
  | @concat trace g' h hg ih =>
    rcases List.eq_nil_or_concat rest with rfl | ⟨rest, last, rfl⟩
    · obtain ⟨rfl, hlast⟩ := List.append_inj' htrace rfl
      obtain rfl := List.singleton_inj.mp hlast
      exact hg holder expiry hloses
    · rw [List.concat_eq_append, ← List.cons_append, ← List.append_assoc] at htrace
      exact ih (List.append_inj' htrace rfl).1

end Accounted

/-- Who found the window to be its own may be blamed for what it releases later. -/
theorem blamed_of_held {k : JobKey} {check g : Glimpse} {trace : List Glimpse}
    {x : Option Instant} (hstage : g.caller.stage = .perform) (hcheck : check.caller = g.caller)
    (hheld : check.after.store.entries.live? check.after.clock k.text =
      some ⟨.text g.caller.id.text, x⟩) (hlinked : Linked check.after trace g.before)
    {holder : JobId} {expiry : Option Instant} (hloses : g.Loses k holder expiry) :
    Blamed .untilExecuting k holder (check :: trace) g := by
  refine ⟨hstage, ?_⟩
  by_cases hid : g.caller.id = holder
  · exact .inl hid
  refine .inr (.inr ⟨rfl, [], check, trace, x, rfl, hcheck, hheld, ?_⟩)
  by_cases hlost : ∃ g' ∈ trace, g'.Loses k g.caller.id x
  · exact .inr hlost
  apply Or.inl
  rw [← Bool.not_eq_true]
  intro hexpiry
  -- Else the window would be its own still, not the other holder's.
  have hkept : ∀ g' ∈ trace,
      g'.before.store.entries.live? g'.before.clock k.text = some ⟨.text g.caller.id.text, x⟩ →
      g'.after.store.entries.live? g'.after.clock k.text = some ⟨.text g.caller.id.text, x⟩ := by
    intro g' hg' hbefore
    by_cases hafter : g'.after.store.entries.live? g'.after.clock k.text =
        some ⟨.text g.caller.id.text, x⟩
    · exact hafter
    · exact absurd ⟨g', hg', hbefore, hafter⟩ hlost
  have hstill := hlinked.live? hheld hkept hexpiry
  rw [hloses.before] at hstill
  simp only [Option.some.injEq, Entry.mk.injEq, Content.text.injEq] at hstill
  exact hid (congrArg JobId.mk hstill.1.symm)

end UniqueJobs
