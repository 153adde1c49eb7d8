import UniqueJobs.Proofs.Site.Course
import UniqueJobs.Proofs.Traffic.Basic

/-!
Glimpses in a row. `Linked` says that the entries stand still from one glimpse to the next, while time
may pass, and `Leads` what holds of an act, if it comes to an end, and of the glimpses it gives.
-/

namespace UniqueJobs

def Site.strategyFor (worker : String) (s : Site) : Strategy :=
  Strategy.ofWorker (s.workers.get? worker) (!s.off.contains worker)

/-- Nobody calls, but time may pass. -/
structure Site.Drifts (s s' : Site) : Prop where
  clock : s.clock.nanos ≤ s'.clock.nanos
  entries : s'.store.entries = s.store.entries
  strategyFor : ∀ worker, s'.strategyFor worker = s.strategyFor worker
  honest : s.Honest → s'.Honest

theorem Site.Drifts.trans {s s' s'' : Site} (h : s.Drifts s') (h' : s'.Drifts s'') :
    s.Drifts s'' where
  clock := Nat.le_trans h.clock h'.clock
  entries := h'.entries.trans h.entries
  strategyFor worker := (h'.strategyFor worker).trans (h.strategyFor worker)
  honest hs := h'.honest (h.honest hs)

theorem Site.Drifts.live? {s s' : Site} {name : String} {e : Entry} (h : s.Drifts s')
    (hlive : s.store.entries.live? s.clock name = some e) (hexpiry : e.isLive s'.clock = true) :
    s'.store.entries.live? s'.clock name = some e := by
  rw [h.entries, Entries.live?_of_le h.clock, hlive]
  exact Option.filter_eq_some_iff.mpr ⟨rfl, hexpiry⟩

theorem Site.Steady.strategyFor {s s' : Site} (h : Steady s s') (worker : String) :
    s'.strategyFor worker = s.strategyFor worker := by
  rw [Site.strategyFor, Site.strategyFor, h.workers, h.off]

theorem Site.Rests.drifts {s s' : Site} (h : Rests s s') : s.Drifts s' :=
  ⟨Nat.le_of_eq (congrArg _ h.clock.symm), h.entries, h.toSteady.strategyFor, h.honest⟩

/-- Entries change in calls alone, and calls take no time. -/
inductive Linked : Site → List Glimpse → Site → Prop
  | rest {s s' : Site} (h : s.Drifts s') : Linked s [] s'
  | call {s s' : Site} {g : Glimpse} {trace : List Glimpse} (h : s.Drifts g.before)
      (hcall : Site.Steady g.before g.after) (hrest : Linked g.after trace s') :
      Linked s (g :: trace) s'

namespace Linked

variable {s s' s'' : Site} {trace more : List Glimpse}

theorem of_drifts (h : s.Drifts s') (h' : Linked s' trace s'') : Linked s trace s'' := by
  cases h' with
  | rest hd => exact .rest (h.trans hd)
  | call hd hcall hrest => exact .call (h.trans hd) hcall hrest

theorem append (h : Linked s trace s') (h' : Linked s' more s'') :
    Linked s (trace ++ more) s'' := by
  induction h with
  | rest hd => exact h'.of_drifts hd
  | call hd hcall _ ih => exact .call hd hcall (ih h')

theorem clock_le (h : Linked s trace s') : s.clock.nanos ≤ s'.clock.nanos := by
  induction h with
  | rest hd => exact hd.clock
  | call hd hcall _ ih =>
    rw [hcall.clock] at ih
    exact Nat.le_trans hd.clock ih

theorem strategyFor (h : Linked s trace s') (worker : String) :
    s'.strategyFor worker = s.strategyFor worker := by
  induction h with
  | rest hd => exact hd.strategyFor worker
  | call hd hcall _ ih => rw [ih, hcall.strategyFor, hd.strategyFor]

theorem honest (h : Linked s trace s') (hs : s.Honest) : s'.Honest := by
  induction h with
  | rest hd => exact hd.honest hs
  | call hd hcall _ ih => exact ih (hcall.honest (hd.honest hs))

theorem live? {name : String} {e : Entry} (h : Linked s trace s')
    (hlive : s.store.entries.live? s.clock name = some e)
    (hcalls : ∀ g ∈ trace, g.before.store.entries.live? g.before.clock name = some e →
      g.after.store.entries.live? g.after.clock name = some e)
    (hexpiry : e.isLive s'.clock = true) : s'.store.entries.live? s'.clock name = some e := by
  induction h with
  | rest hd => exact hd.live? hlive hexpiry
  | @call s s' g trace hd hcall hrest ih =>
    have hbefore : e.isLive g.before.clock = true := by
      rw [← hcall.clock]
      exact Entry.isLive_mono hrest.clock_le hexpiry
    have hafter := hcalls g List.mem_cons_self (hd.live? hlive hbefore)
    exact ih hafter (fun g' hg' ↦ hcalls g' (List.mem_cons_of_mem _ hg')) hexpiry

end Linked

/-- If the act comes to an end, what holds of its outcome, the glimpses and the site afterwards. -/
def Leads {α : Type} (x : Scene α) (s : Site) (P : α → List Glimpse → Site → Prop) : Prop :=
  ∀ seen r, (x.run s).run seen = some r → ∃ trace, r.2 = seen ++ trace ∧ P r.1.1 trace r.1.2

namespace Leads

variable {α β : Type} {x : Scene α} {s : Site} {P Q : α → List Glimpse → Site → Prop}

theorem imp (h : Leads x s P) (hPQ : ∀ a trace s', P a trace s' → Q a trace s') :
    Leads x s Q := by
  intro seen r hr
  obtain ⟨trace, hseen, hP⟩ := h seen r hr
  exact ⟨trace, hseen, hPQ _ trace _ hP⟩

theorem pure {a : α} (h : P a [] s) : Leads (pure a) s P := by
  intro seen r hr
  obtain rfl := Option.some.inj hr
  exact ⟨[], (List.append_nil seen).symm, h⟩

theorem bind {f : α → Scene β} {R : β → List Glimpse → Site → Prop} (h : Leads x s P)
    (hf : ∀ a trace s', P a trace s' → Leads (f a) s' fun b more s'' ↦ R b (trace ++ more) s'') :
    Leads (x >>= f) s R := by
  intro seen r hr
  change ((x.run s).run seen).bind (fun p ↦ ((f p.1.1).run p.1.2).run p.2) = some r at hr
  obtain ⟨p, hp, hr⟩ := Option.bind_eq_some_iff.mp hr
  obtain ⟨trace, hseen, hP⟩ := h seen p hp
  obtain ⟨more, hmore, hR⟩ := hf _ trace _ hP p.2 r hr
  exact ⟨trace ++ more, by rw [hmore, hseen, List.append_assoc], hR⟩

theorem unseen {y : Site.Act α} (h : ∀ a s', y.run s = some (a, s') → P a [] s') :
    Leads (Scene.unseen y) s P := by
  intro seen r hr
  change ((y.run s).bind fun p ↦ some (p, seen)) = some r at hr
  obtain ⟨p, hp, hr⟩ := Option.bind_eq_some_iff.mp hr
  obtain rfl := Option.some.inj hr
  exact ⟨[], (List.append_nil seen).symm, h _ _ hp⟩

theorem of_does {caller : Caller} {R : α → List (Site × Site) → Site → Prop}
    (h : Site.Does (Scene.glimpse caller) x s R) :
    Leads x s fun a trace s' ↦
      ∃ calls, trace = calls.map (fun p ↦ ⟨caller, p.1, p.2⟩) ∧ R a calls s' := by
  have hnotes (calls : List (Site × Site)) (seen : List Glimpse) :
      (Site.noteAll (Scene.glimpse caller) calls).run seen =
        some ((), seen ++ calls.map fun p ↦ ⟨caller, p.1, p.2⟩) := by
    induction calls generalizing seen with
    | nil => rw [List.map_nil, List.append_nil]; rfl
    | cons p rest ih =>
      rw [List.map_cons, List.append_cons]
      exact ih (seen ++ [⟨caller, p.1, p.2⟩])
  obtain ⟨a, calls, s', hx, hR⟩ := h
  intro seen r hr
  rw [hx, StateT.run_bind, hnotes] at hr
  obtain rfl := Option.some.inj hr
  exact ⟨_, rfl, calls, rfl, hR⟩

end Leads

end UniqueJobs
