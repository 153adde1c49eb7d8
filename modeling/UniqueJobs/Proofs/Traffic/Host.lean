import UniqueJobs.Proofs.Site.Claimant
import UniqueJobs.Proofs.Traffic.Account

/-!
What the host of a scene does, act by act. `Answers` is the judgement that passages are made of: an
act whose calls are linked and whose losses are all accounted for.
-/

namespace UniqueJobs

open Entries

namespace Scene

theorem run_seen {α : Type} {caller : Caller} {x : Site.Act α} {s : Site} {r : α × Site}
    (h : x.run s = pure r) : (seen caller x).run s = Site.noted (glimpse caller) s r := by
  change (StateT.lift (x.run s) >>= fun r ↦ do glimpse caller s r.2; pure r) = _
  rw [h]
  rfl

theorem serves_host (measure : String → String → String → Except LsnError Int64)
    (caller : Caller) : Site.Serves (glimpse caller) (host measure caller).store where
  run p keys args s := run_seen (Site.run_recordStore_run p keys args s)
  get name s := run_seen (Site.run_recordStore_get name s)
  setIfAbsent name value ttl s := run_seen (Site.run_recordStore_setIfAbsent name value ttl s)
  batch requests _ hs := run_seen (Site.run_recordStore_batch requests hs)

theorem now_host (measure : String → String → String → Except LsnError Int64)
    (caller : Caller) : (host measure caller).now = unseen Site.now := by
  simp only [host, Host.lift, Site.host]

end Scene

/-- Where the worker's jobs pass under the strategy, the act changes entries in calls alone and
accounts for every loss, and what holds of its outcome. -/
def Answers {α : Type} (strategy : Strategy) (k : JobKey) (worker : String) (x : Scene α)
    (R : α → Prop) : Prop :=
  ∀ s : Site, s.Honest → s.strategyFor worker = strategy →
    Leads x s fun a trace s' ↦ Linked s trace s' ∧ Accounted strategy k trace ∧ R a

namespace Answers

variable {α β : Type} {strategy : Strategy} {k : JobKey} {worker : String} {x : Scene α}
  {R : α → Prop} {Q : β → Prop}

theorem pure {a : α} (h : R a) : Answers strategy k worker (Pure.pure a) R :=
  fun s _ _ ↦ Leads.pure ⟨.rest (Site.Rests.refl s).drifts, .nil, h⟩

theorem bind {f : α → Scene β} (h : Answers strategy k worker x R)
    (hf : ∀ a, R a → Answers strategy k worker (f a) Q) :
    Answers strategy k worker (x >>= f) Q := by
  intro s hs hstrategy
  apply Leads.bind (h s hs hstrategy)
  intro a trace s' hx
  obtain ⟨hlinked, haccounted, ha⟩ := hx
  apply (hf a ha s' (hlinked.honest hs) ((hlinked.strategyFor worker).trans hstrategy)).imp
  intro b more s'' hfa
  obtain ⟨hlinked', haccounted', hb⟩ := hfa
  exact ⟨hlinked.append hlinked', haccounted.append haccounted', hb⟩

theorem unseen {y : Site.Act α} (h : ∀ s a s', y.run s = some (a, s') → s.Drifts s' ∧ R a) :
    Answers strategy k worker (Scene.unseen y) R :=
  fun s _ _ ↦ Leads.unseen fun a s' hy ↦ ⟨.rest (h s a s' hy).1, .nil, (h s a s' hy).2⟩

variable (strategy k) in
theorem of_course {c : Claimant} {allowed : Contact → Prop} {s s' : Site}
    {calls : List (Site × Site)} (caller : Caller) (h : Site.Course c allowed s calls s')
    (hrelease : ¬ allowed .release) :
    Linked s (calls.map fun p ↦ ⟨caller, p.1, p.2⟩) s' ∧
      Accounted strategy k (calls.map fun p ↦ ⟨caller, p.1, p.2⟩) := by
  induction h with
  | rest hr => exact ⟨.rest hr.drifts, .nil⟩
  | @call s s₁ s₂ s' calls hr htouches hrest ih =>
    have hkeeps := (Site.Course.one htouches (.refl _)).keepsTexts hrelease
    have hfirst : Accounted strategy k [⟨caller, s₁, s₂⟩] :=
      .of_keepsTexts htouches.toSteady hkeeps
    exact ⟨.call hr.drifts htouches.toSteady ih.1, hfirst.append ih.2⟩

/-- No call but a release loses a window. -/
theorem of_does (c : Claimant) (allowed : Contact → Prop) (caller : Caller)
    (hrelease : ¬ allowed .release)
    (h : ∀ s : Site, s.Honest → Site.Does (Scene.glimpse caller) x s fun a calls s' ↦
      Site.Course c allowed s calls s' ∧ R a) :
    Answers strategy k worker x R := by
  intro s hs _
  apply (Leads.of_does (h s hs)).imp
  intro a trace s' hx
  obtain ⟨calls, rfl, hcourse, ha⟩ := hx
  obtain ⟨hlinked, haccounted⟩ := of_course strategy k caller hcourse hrelease
  exact ⟨hlinked, haccounted, ha⟩

section

variable {measure : String → String → String → Except LsnError Int64} {caller : Caller}
  {c : Claimant} {job : Job}

theorem emit (e : Event) :
    Answers strategy k worker ((Scene.host measure caller).emit e) fun _ ↦ True := by
  apply unseen
  intro s a s' h
  obtain rfl := (Prod.mk.inj (Option.some.inj h)).2
  exact ⟨(Site.Rests.emitted e s).drifts, trivial⟩

theorem note {event : ClaimError → Event} (r : Except ClaimError Unit) :
    Answers strategy k worker (Passage.note (Scene.host measure caller) event r)
      fun _ ↦ True := by
  cases r with
  | ok u => exact .pure trivial
  | error e => exact emit _

theorem now : Answers strategy k worker (Scene.host measure caller).now fun _ ↦ True := by
  rw [Scene.now_host]
  apply unseen
  intro s a s' h
  simp only [Site.now, StateT.run, Option.map_eq_some_iff, Prod.mk.injEq] at h
  obtain ⟨t, -, -, rfl⟩ := h
  exact ⟨(Site.Rests.refl s).drifts, trivial⟩

theorem check (c : Claimant) (window : Duration) : Answers strategy k worker
    (c.check (Scene.host measure caller).store (Scene.host measure caller).emit window)
      fun _ ↦ True := by
  apply of_does c (· = .claim window) caller (by simp)
  intro s hs
  apply (Site.does_check (Scene.serves_host measure caller) hs window).imp
  intro r calls s' h
  obtain ⟨⟨s₁, rfl, htouches, hr⟩, -⟩ := h
  exact ⟨.one htouches hr, trivial⟩

theorem offerLocations (c : Claimant) : Answers strategy k worker
    (c.offerLocations (Scene.host measure caller).store (Scene.host measure caller).distance)
      fun _ ↦ True := by
  apply of_does c (fun x ↦ ∃ config location offset, x = .advance config location offset)
    caller (by simp)
  intro s _
  exact (Site.does_offerLocations (Scene.serves_host measure caller) (fun _ _ _ ↦ rfl) c s).imp
    fun _ _ _ h ↦ ⟨h, trivial⟩

theorem setFlag (c : Claimant) (ttl : Duration) : Answers strategy k worker
    (c.setFlag (Scene.host measure caller).store ttl) fun _ ↦ True := by
  apply of_does c (· = .setFlag ttl) caller (by simp)
  intro s _
  exact (Site.does_setFlag (Scene.serves_host measure caller) c ttl s).imp
    fun _ _ _ h ↦ ⟨h, trivial⟩

theorem attachLatest (c : Claimant) (job : Job) : Answers strategy k worker
    (Passage.attachLatest (Scene.host measure caller) c job) fun r ↦
      r.1.id = c.id ∧ r.1.key = c.key := by
  have hread : Answers strategy k worker (c.readLatest (Scene.host measure caller).store)
      fun r ↦ r.2.id = c.id ∧ r.2.key = c.key := by
    apply of_does c (· = .readLatest) caller (by simp)
    intro s hs
    apply (Site.does_readLatest (Scene.serves_host measure caller) hs).imp
    intro r calls s' h
    obtain ⟨hcourse, latest, hlatest⟩ := h
    rw [hlatest]
    exact ⟨hcourse, rfl, rfl⟩
  apply hread.bind
  intro r hc
  obtain ⟨r, c'⟩ := r
  cases r with
  | ok latest => exact .pure hc
  | error e => exact (emit _).bind fun _ _ ↦ .pure hc

theorem readFlag : Answers strategy k worker
    (Passage.readFlag (Scene.host measure caller) c job) fun _ ↦ True := by
  have hflagged : Answers strategy k worker (c.flagged (Scene.host measure caller).store)
      fun _ ↦ True := by
    apply of_does c (· = .readFlag) caller (by simp)
    intro s _
    exact (Site.does_flagged (Scene.serves_host measure caller) c s).imp
      fun _ _ _ h ↦ ⟨h, trivial⟩
  apply hflagged.bind
  intro r _
  cases r with
  | ok flagged => exact .pure trivial
  | error e => exact (emit _).bind fun _ _ ↦ .pure trivial

theorem runAgain : Answers strategy k worker
    (Passage.runAgain (Scene.host measure caller) job) fun _ ↦ True := by
  have hfresh : Answers strategy k worker (Scene.host measure caller).freshId fun _ ↦ True := by
    apply unseen
    intro s a s' h
    obtain rfl := (Prod.mk.inj (Option.some.inj h)).2
    exact ⟨⟨Nat.le_refl _, rfl, fun _ ↦ rfl, id⟩, trivial⟩
  have hkeep (fresh : Job) : Answers strategy k worker
      (Scene.unseen (do Site.keep fresh; Pure.pure (Except.ok () : Except String Unit)))
        fun _ ↦ True := by
    apply unseen
    intro s a s' h
    obtain rfl := (Prod.mk.inj (Option.some.inj h)).2
    exact ⟨⟨Nat.le_refl _, rfl, fun _ ↦ rfl, id⟩, trivial⟩
  apply hfresh.bind
  intro fresh _
  apply (hkeep _).bind
  intro r _
  cases r <;> exact emit _

end

end Answers

end UniqueJobs
