import UniqueJobs.Proofs.Journal.Calls
import UniqueJobs.Proofs.Journal.Ends
import UniqueJobs.Proofs.Site.Claimant

/-!
What a claimant does at a calm site, act by act, and how it stands in the journal.
-/

namespace UniqueJobs

open Entries

namespace Journal

variable {limit : Nat} {measure : String → String → String → Except LsnError Int64}
  {caller : Caller} {c : Claimant} {s : Site}

theorem ends_batch (hs : s.Calm) (requests : List Request) :
    Ends limit ((host measure caller).store.batch requests) s fun r notes s' ↦
      r = (carryOutAll s.clock requests s.store.entries).1 ∧
      notes = [.called caller (.batch requests)
        (failureOf (carryOutAll s.clock requests s.store.entries).1) s
        (s.keeping (carryOutAll s.clock requests s.store.entries).2)] ∧
      s' = s.keeping (carryOutAll s.clock requests s.store.entries).2 := by
  have hrun := (Site.run_recordStore_batch (m := Option) requests hs.honest).trans
    (congrArg some (hs.call .batch _))
  exact Ends.seen hrun ⟨rfl, rfl, rfl⟩

theorem ends_run (hs : s.Calm) (p : Procedure) (keys args : List String) :
    Ends limit ((host measure caller).store.run p keys args) s fun r notes s' ↦
      r = (runProcedure s.clock p keys args s.store.entries).1 ∧
      notes = [.called caller (.run p keys args)
        (failureOf (runProcedure s.clock p keys args s.store.entries).1) s
        (s.keeping (runProcedure s.clock p keys args s.store.entries).2)] ∧
      s' = s.keeping (runProcedure s.clock p keys args s.store.entries).2 := by
  have hrun := (Site.run_recordStore_run (m := Option) p keys args s).trans
    (congrArg some (hs.call .run _))
  exact Ends.seen hrun ⟨rfl, rfl, rfl⟩

theorem ends_emit (e : Event) :
    Ends limit ((host measure caller).emit e) s fun _ notes s' ↦ notes = [] ∧ s.Quiet s' := by
  have hquiet : s.Quiet (s.emitted e) := ⟨⟨rfl, rfl, rfl, rfl, rfl, rfl⟩, rfl, rfl⟩
  exact Ends.unseen rfl ⟨rfl, hquiet⟩

theorem ends_note (event : ClaimError → Event) (r : Except ClaimError Unit) :
    Ends limit (Passage.note (host measure caller) event r) s fun _ notes s' ↦
      notes = [] ∧ s.Quiet s' := by
  cases r with
  | ok u => exact Ends.pure ⟨rfl, .refl s⟩
  | error e => exact ends_emit (event e)

theorem ends_now (hlimit : s.wall ≤ limit) :
    Ends limit (host measure caller).now s fun now notes s' ↦
      s.date? = some now ∧ notes = [] ∧ s = s' := by
  have hnow : (host measure caller).now = unseen Site.now := by
    simp only [host, Host.lift, Site.host]
  have hrun : Site.now.run s = s.date?.map fun t ↦ (t, s) := rfl
  rw [hnow]
  cases hdate : s.date? with
  | some t =>
    rw [hdate] at hrun
    exact Ends.unseen hrun ⟨rfl, rfl, rfl⟩
  | none =>
    have hover : Overdue s.wall := hdate
    rw [hdate] at hrun
    exact fun log ↦ .inr ⟨by rw [run_unseen, hrun]; rfl, hover.mono hlimit⟩

theorem ends_check (hs : s.Calm) (c : Claimant) (window : Duration) :
    Ends limit (c.check (host measure caller).store (host measure caller).emit window) s
      fun r notes s' ↦ Calls caller c [.claim window] s notes s' ∧
        Site.Checked c window s s' r ∧
        ∀ e, r.1 = .error e → ¬ Sound c.key s.clock s.store.entries := by
  apply (ends_batch hs (c.claimRequests window)).bind
  rintro answer notes s' ⟨rfl, rfl, rfl⟩
  -- Of a sound store the batch and the reading of its replies both succeed.
  have hanswer (h : Sound c.key s.clock s.store.entries) := Claimant.exists_readClaim
    (h.claim window).fit
  cases hr : (carryOutAll s.clock (c.claimRequests window) s.store.entries).1 with
  | error e =>
    refine Ends.pure ⟨?_, .failed _, ?_⟩
    · rw [← hr]
      exact .one (.claim window) s (.refl _)
    · intro _ _ h
      obtain ⟨replies, winner, baselines, hreplies, -⟩ := hanswer h
      rw [hreplies] at hr
      cases hr
  | ok replies =>
    cases hread : c.readClaim replies with
    | error e =>
      simp only [hread]
      refine Ends.pure ⟨?_, .failed _, ?_⟩
      · rw [← hr]
        exact .one (.claim window) s (.refl _)
      · intro _ _ h
        obtain ⟨replies', winner, baselines, hreplies, hread'⟩ := hanswer h
        rw [hreplies] at hr
        cases hr
        rw [hread] at hread'
        cases hread'
    | ok found =>
      obtain ⟨winner, baselines⟩ := found
      obtain ⟨hwinner, hbaselines⟩ := Claimant.readClaim_of_claim hr hread
      simp only [hread]
      apply (ends_emit _).bind
      rintro _ _ s' ⟨rfl, hquiet⟩
      have hentries := congrArg LocalStore.entries hquiet.store
      refine Ends.pure ⟨?_, .answered winner baselines hentries ?_ ?_, fun _ h ↦ by cases h⟩
      · rw [← hr]
        exact .one (.claim window) s hquiet
      · rw [hentries]
        exact hwinner
      · rw [hentries]
        exact hbaselines

theorem ends_offer (hs : s.Calm) (c : Claimant) {locations : List (String × String)}
    (hlocations : ∀ p ∈ locations, c.locations.get? p.1 = some p.2) :
    Ends limit (c.offer (host measure caller).store (host measure caller).distance locations) s
      fun _ notes s' ↦ ∃ contacts, Calls caller c contacts s notes s' ∧
        ∀ contact ∈ contacts, contact.Offers c measure := by
  induction locations generalizing s with
  | nil => exact Ends.pure ⟨[], .rest (.refl s), by simp⟩
  | cons head rest ih =>
    obtain ⟨config, location⟩ := head
    have hdistance : (host measure caller).distance config location
        ((c.baselines.get? config).getD location) =
          pure (measure config location ((c.baselines.get? config).getD location)) := rfl
    rw [Claimant.offer, hdistance, pure_bind]
    cases hm : measure config location ((c.baselines.get? config).getD location) with
    | error e => exact Ends.pure ⟨[], .rest (.refl s), by simp⟩
    | ok offset =>
      have hcarried := hlocations _ List.mem_cons_self
      have hoffers : (Contact.advance config location offset).Offers c measure :=
        ⟨config, location, offset, rfl, hcarried, hm⟩
      apply (ends_run hs _ _ _).bind
      rintro answer notes s' ⟨rfl, rfl, rfl⟩
      have hone : Calls caller c [.advance config location offset] s
          [(Contact.advance config location offset).note caller c s]
          (s.met c (.advance config location offset)) := .one _ s (.refl _)
      split
      · exact Ends.pure ⟨_, hone, by simpa using hoffers⟩
      · refine (ih ((Site.like_met s c (.advance config location offset)).calm hs)
          fun p hp ↦ hlocations p (List.mem_cons_of_mem _ hp)).imp ?_
        rintro r more s'' ⟨contacts, hrest, hall⟩
        exact ⟨_, hone.append hrest, List.forall_mem_append.mpr ⟨by simpa using hoffers, hall⟩⟩

theorem ends_offerLocations (hs : s.Calm) (c : Claimant) :
    Ends limit (c.offerLocations (host measure caller).store (host measure caller).distance) s
      fun _ notes s' ↦ ∃ contacts, Calls caller c contacts s notes s' ∧
        ∀ contact ∈ contacts, contact.Offers c measure := by
  rw [Claimant.offerLocations]
  split
  · exact Ends.pure ⟨[], .rest (.refl s), by simp⟩
  · split
    · exact Ends.pure ⟨[], .rest (.refl s), by simp⟩
    · exact ends_offer hs c fun p hp ↦ (c.locations.get?_eq_some_iff p.1 p.2).mpr hp

theorem ends_setFlag (hs : s.Calm) (c : Claimant) (ttl : Duration) :
    Ends limit (c.setFlag (host measure caller).store ttl) s fun _ notes s' ↦
      Calls caller c (c.flagWrites ttl) s notes s' := by
  rw [Claimant.setFlag, Claimant.flagWrites]
  split
  · have hrun := (Site.run_recordStore_setIfAbsent (m := Option) c.key.flag "1" ttl s).trans
      (congrArg some (hs.call .setIfAbsent _))
    have hset : Ends limit ((host measure caller).store.setIfAbsent c.key.flag "1" ttl) s
        fun _ notes s' ↦ notes = [(Contact.setFlag ttl).note caller c s] ∧
          s' = s.met c (.setFlag ttl) := Ends.seen hrun ⟨rfl, rfl⟩
    apply hset.bind
    rintro answer notes s' ⟨rfl, rfl⟩
    have hone : Calls caller c [.setFlag ttl] s _ _ := .one (.setFlag ttl) s (.refl _)
    cases answer <;> exact Ends.pure hone
  · exact Ends.pure (.rest (.refl s))

/-- The flag is read as it stands, and where it cannot be read there is no text. -/
theorem ends_flagged (hs : s.Calm) (c : Claimant) :
    Ends limit (c.flagged (host measure caller).store) s fun r notes s' ↦
      Calls caller c c.flagReads s notes s' ∧ (∀ flagged, r = .ok flagged → flagged = c.findsFlag s) ∧
        ∀ e, r = .error e → c.findsFlag s = false := by
  rw [Claimant.flagged, Claimant.flagReads, Claimant.findsFlag]
  by_cases hagain : c.runsAgain = true
  · simp only [hagain, ↓reduceIte, Bool.true_and]
    have hrun := (Site.run_recordStore_get (m := Option) c.key.flag s).trans
      (congrArg some (hs.call .get _))
    have hget : Ends limit ((host measure caller).store.get c.key.flag) s
        fun r notes s' ↦ r = (getText s.clock c.key.flag s.store.entries).1 ∧
          notes = [Contact.readFlag.note caller c s] ∧ s' = s.met c .readFlag :=
      Ends.seen hrun ⟨rfl, rfl, rfl⟩
    apply hget.bind
    rintro answer notes s' ⟨rfl, rfl, rfl⟩
    have hone : Calls caller c [.readFlag] s _ _ := .one .readFlag s (.refl _)
    cases hanswer : (getText s.clock c.key.flag s.store.entries).1 with
    | error e =>
      refine Ends.pure ⟨hone, fun _ h ↦ (by cases h), ?_⟩
      intro _ _
      rw [text?_of_getText_error hanswer]
      rfl
    | ok v =>
      refine Ends.pure ⟨hone, ?_, fun _ h ↦ by cases h⟩
      rintro flagged ⟨⟩
      rw [eq_text?_of_getText hanswer]
  · simp only [hagain, Bool.false_eq_true, ↓reduceIte, Bool.false_and]
    exact Ends.pure ⟨.rest (.refl s), fun _ h ↦ (Except.ok.inj h).symm, fun _ _ ↦ trivial⟩

theorem ends_release (hs : s.Calm) (c : Claimant) :
    Ends limit (c.release (host measure caller).store (host measure caller).emit) s
      fun _ notes s' ↦ Calls caller c [.release] s notes s' := by
  apply (ends_run hs _ _ _).bind
  rintro answer notes s' ⟨rfl, rfl, rfl⟩
  split
  · exact Ends.pure (.one .release s (.refl _))
  · apply (ends_emit _).bind
    rintro _ _ s' ⟨rfl, hquiet⟩
    exact Ends.pure (.one .release s hquiet)

theorem ends_letGo (hs : s.Calm) (c : Claimant) (job : Job) :
    Ends limit (Passage.letGo (host measure caller) c job) s fun _ notes s' ↦
      Calls caller c [.release] s notes s' := by
  apply (ends_release hs c).bind
  intro r notes s' h
  apply (ends_note _ r).imp
  rintro _ _ s'' ⟨rfl, hquiet⟩
  rw [List.append_nil]
  exact h.quiet hquiet

theorem ends_readFlag (hs : s.Calm) (c : Claimant) (job : Job) :
    Ends limit (Passage.readFlag (host measure caller) c job) s fun flagged notes s' ↦
      Calls caller c c.flagReads s notes s' ∧ flagged = c.findsFlag s := by
  apply (ends_flagged hs c).bind
  rintro r notes s' ⟨h, hread, hfailed⟩
  cases r with
  | ok flagged =>
    rw [← List.append_nil notes] at h
    exact Ends.pure ⟨h, hread flagged rfl⟩
  | error e =>
    apply (ends_emit _).bind
    rintro _ _ s'' ⟨rfl, hquiet⟩
    refine Ends.pure ⟨?_, (hfailed e rfl).symm⟩
    rw [List.append_nil, List.append_nil]
    exact h.quiet hquiet

/-- The job is handed over once, as a new instance. -/
theorem ends_runAgain (job : Job) :
    Ends limit (Passage.runAgain (host measure caller) job) s fun _ notes s' ↦
      notes = [] ∧ s.Still s' ∧ s'.rescheduled = s.rescheduled ++ [s.respawned job] := by
  have hfresh : Ends limit (host measure caller).freshId s fun id notes s' ↦
      id = s.nextId ∧ notes = [] ∧ s.Still s' ∧ s'.rescheduled = s.rescheduled :=
    Ends.unseen rfl ⟨rfl, rfl, ⟨rfl, rfl, rfl, rfl, rfl, rfl⟩, rfl⟩
  apply hfresh.bind
  rintro id _ s₁ ⟨rfl, rfl, hfirst, hbefore⟩
  have hkeep : Ends limit (unseen (do Site.keep (s.respawned job); pure (.ok ())) :
      Journal (Except String Unit)) s₁ fun _ notes s' ↦ notes = [] ∧ s₁.Still s' ∧
        s'.rescheduled = s₁.rescheduled ++ [s.respawned job] :=
    Ends.unseen rfl ⟨rfl, ⟨rfl, rfl, rfl, rfl, rfl, rfl⟩, rfl⟩
  apply hkeep.bind
  rintro r _ s₂ ⟨rfl, hsecond, hafter⟩
  rw [hbefore] at hafter
  have hlast (e : Event) : Ends limit ((host measure caller).emit e) s₂ fun _ notes s' ↦
      [] ++ ([] ++ notes) = [] ∧ s.Still s' ∧
        s'.rescheduled = s.rescheduled ++ [s.respawned job] := by
    apply (ends_emit e).imp
    rintro _ _ s₃ ⟨rfl, hthird⟩
    exact ⟨rfl, (hfirst.trans hsecond).trans hthird.toStill, hthird.rescheduled.trans hafter⟩
  cases r <;> exact hlast _

theorem ends_readLatest (hs : s.Calm) (hfresh : c.latest = none) (job : Job) :
    Ends limit (c.readLatest (host measure caller).store) s fun r notes s' ↦
      (∃ latest, r.2 = { c with latest }) ∧
        (∀ d, r.1 = .ok d → Attaches caller c job s notes
          (if d.isEmpty then job else { job with latest := d }) s') ∧
        ∀ e, r.1 = .error e → Attaches caller c job s notes job s' := by
  rw [Claimant.readLatest, hfresh]
  by_cases hempty : c.locations.isEmpty = true
  · simp only [hempty, ↓reduceIte]
    refine Ends.pure ⟨⟨_, rfl⟩, ?_, fun _ h ↦ by cases h⟩
    rintro d ⟨⟩
    exact .nothing hempty (.refl s)
  · simp only [hempty, Bool.false_eq_true, ↓reduceIte]
    apply (ends_batch hs c.latestReads).bind
    rintro answer notes s' ⟨rfl, rfl, rfl⟩
    have hone : Calls caller c [.readLatest] s _ _ := .one .readLatest s (.refl _)
    have hfailure : Contact.readLatest.failure? c s.clock s.store.entries =
        failureOf (carryOutAll s.clock c.latestReads s.store.entries).1 := rfl
    cases hr : (carryOutAll s.clock c.latestReads s.store.entries).1 with
    | error e =>
      refine Ends.pure ⟨⟨none, by rw [← hfresh]⟩, fun _ h ↦ (by cases h), ?_⟩
      intro _ _
      rw [← hr]
      refine .failed ?_ hone
      rw [hfailure, hr]
      simp [failureOf]
    | ok replies =>
      obtain ⟨d, hd, hget⟩ := Claimant.pairValues_of_latestReads hr
      simp only [hd]
      refine Ends.pure ⟨⟨some d, rfl⟩, ?_, fun _ h ↦ by cases h⟩
      rintro d ⟨⟩
      rw [← hr]
      exact .answered d hget hone

theorem ends_attachLatest (hs : s.Calm) (hfresh : c.latest = none) (job : Job) :
    Ends limit (Passage.attachLatest (host measure caller) c job) s fun r notes s' ↦
      (∃ latest, r.1 = { c with latest }) ∧ Attaches caller c job s notes r.2 s' := by
  apply (ends_readLatest hs hfresh job).bind
  rintro ⟨r, c'⟩ notes s' ⟨hc, hread, hfailed⟩
  cases r with
  | ok d =>
    refine Ends.pure ⟨hc, ?_⟩
    rw [List.append_nil]
    exact hread d rfl
  | error e =>
    apply (ends_emit _).bind
    rintro _ _ s'' ⟨rfl, hquiet⟩
    refine Ends.pure ⟨hc, ?_⟩
    rw [List.append_nil, List.append_nil]
    exact (hfailed e rfl).quiet hquiet

end Journal

end UniqueJobs
