import UniqueJobs.Proofs.Site.Course

/-!
The six calls of a claimant at a site: each comes to an end, by a course of contacts of one kind.
`does_check` and `does_release` say besides what the answers mean and when there must be one.
-/

namespace UniqueJobs.Site

open Entries

inductive Checked (c : Claimant) (window : Duration) (s s' : Site) :
    Except ClaimError JobId × Claimant → Prop
  | failed (e : ClaimError) : Checked c window s s' (.error e, c)
  | answered (winner : JobId) (baselines : Dictionary String)
      (hentries : s'.store.entries = (Contact.claim window).effect c s.clock s.store.entries)
      (hwinner : text? s.clock c.key.text s'.store.entries = some winner.text)
      (hbaselines : ∀ config, baselines.get? config =
        if c.locations.contains config = true then
          text? s.clock (c.key.baseline config) s'.store.entries
        else none) :
      Checked c window s s' (.ok winner, { c with winner := some winner, baselines })

inductive Released (c : Claimant) (s s' : Site) : Except ClaimError Unit → Prop
  | failed (e : ClaimError)
      (hlive : ∀ name, live? s.clock name s'.store.entries = live? s.clock name s.store.entries) :
      Released c s s' (.error e)
  | done (hentries : s'.store.entries = Contact.release.effect c s.clock s.store.entries) :
      Released c s s' (.ok ())

variable {m : Type → Type} [Monad m] [LawfulMonad m] {note : Site → Site → m Unit}
  {store : RecordStore (StateT Site m)} {c : Claimant} {s : Site}

theorem does_check (hstore : Serves note store) (hs : s.Honest) (window : Duration) :
    Does note (c.check store emit window) s fun r calls s' ↦
      (∃ s₁, calls = [(s, s₁)] ∧ Touches c (· = .claim window) s s₁ ∧ Rests s₁ s') ∧
      Checked c window s s' r ∧
      (Sound c.key s.clock s.store.entries → s.refusal? .batch = none →
        ∃ winner, r.1 = .ok winner) := by
  have htouches : Touches c (· = .claim window) s
      (s.call .batch (carryOutAll s.clock (c.claimRequests window))).2 :=
    touches_call (.claim window) rfl rfl
  refine Does.bind_call (hstore.batch (c.claimRequests window) s hs) ?_
  cases hrefusal : s.refusal? .batch with
  | some e =>
    rw [(call_of_refusal_eq_some hrefusal).1]
    refine Does.pure ⟨⟨_, by simp, htouches, .refl _⟩, .failed _, fun _ h ↦ (by cases h)⟩
  | none =>
    obtain ⟨hfst, hentries⟩ :=
      call_of_refusal_eq_none (f := carryOutAll s.clock (c.claimRequests window)) hrefusal
    rw [hfst]
    -- Of a sound store the batch and the reading of its replies both succeed.
    have hanswer (h : Sound c.key s.clock s.store.entries) := Claimant.exists_readClaim
      (h.claim window).fit
    cases hr : (carryOutAll s.clock (c.claimRequests window) s.store.entries).1 with
    | error e =>
      refine Does.pure ⟨⟨_, by simp, htouches, .refl _⟩, .failed _, ?_⟩
      intro h _
      obtain ⟨replies, winner, baselines, hreplies, -⟩ := hanswer h
      rw [hreplies] at hr
      cases hr
    | ok replies =>
      cases hread : c.readClaim replies with
      | error e =>
        simp only [hread]
        refine Does.pure ⟨⟨_, by simp, htouches, .refl _⟩, .failed _, ?_⟩
        intro h _
        obtain ⟨replies', winner, baselines, hreplies, hread'⟩ := hanswer h
        rw [hreplies] at hr
        cases hr
        rw [hread] at hread'
        cases hread'
      | ok found =>
        obtain ⟨winner, baselines⟩ := found
        simp only [hread]
        obtain ⟨hwinner, hbaselines⟩ := Claimant.readClaim_of_claim hr hread
        refine Does.of_run_eq_pure (.ok winner, { c with winner := some winner, baselines })
          (((s.call .batch (carryOutAll s.clock (c.claimRequests window))).2).emitted
            (.checked c.id winner c.key)) (by simp [run_emit]) ?_
        refine ⟨⟨_, by simp, htouches, .emitted _ _⟩, .answered winner baselines hentries ?_ ?_,
          fun _ _ ↦ ⟨winner, rfl⟩⟩
        · exact (congrArg _ hentries).trans hwinner
        · intro config
          rw [← hentries] at hbaselines
          exact hbaselines config

theorem does_release (hstore : Serves note store) (c : Claimant) (s : Site) :
    Does note (c.release store emit) s fun r calls s' ↦
      (∃ s₁, calls = [(s, s₁)] ∧ Touches c (· = .release) s s₁ ∧ Rests s₁ s') ∧
      Released c s s' r ∧
      (Sound c.key s.clock s.store.entries → s.refusal? .run = none → r = .ok ()) := by
  have htouches : Touches c (· = .release) s (s.call .run (runProcedure s.clock .release
      [c.key.text, c.key.flag, c.key.configs] c.locations.keys)).2 :=
    touches_call .release rfl rfl
  refine Does.bind_call (hstore.run _ _ _ s) ?_
  cases hrefusal : s.refusal? .run with
  | some e =>
    obtain ⟨hfst, hentries⟩ := call_of_refusal_eq_some (f := runProcedure s.clock .release
      [c.key.text, c.key.flag, c.key.configs] c.locations.keys) hrefusal
    rw [hfst]
    exact Does.pure ⟨⟨_, rfl, htouches, .refl _⟩, .failed _ fun name ↦ by rw [hentries],
      fun _ h ↦ (by cases h)⟩
  | none =>
    obtain ⟨hfst, hentries⟩ := call_of_refusal_eq_none (f := runProcedure s.clock .release
      [c.key.text, c.key.flag, c.key.configs] c.locations.keys) hrefusal
    rw [hfst]
    cases hr : (runProcedure s.clock .release [c.key.text, c.key.flag, c.key.configs]
        c.locations.keys s.store.entries).1 with
    | error e =>
      refine Does.pure ⟨⟨_, rfl, htouches, .refl _⟩, .failed _ ?_, ?_⟩
      · intro name
        rw [hentries]
        exact live?_release_of_error hr name
      · intro h _
        have hok := (h.release_eq_none c.locations.keys).1
        cases hr.symm.trans hok
    | ok u =>
      refine Does.of_run_eq_pure (.ok ()) (((s.call .run (runProcedure s.clock .release
        [c.key.text, c.key.flag, c.key.configs] c.locations.keys)).2).emitted
          (.released c.id c.key)) (by simp [run_emit]) ?_
      exact ⟨⟨_, rfl, htouches, .emitted _ _⟩, .done hentries, fun _ _ ↦ rfl⟩

/-- A call of the store, and a reading of its answer that calls nothing more. -/
theorem does_reading {α β : Type} {x : StateT Site m (Except StoreError α)} {kind : CallKind}
    {f : Entries → Except StoreError α × Entries} (contact : Contact)
    (hx : x.run s = noted note s (s.call kind f))
    (hf : (f s.store.entries).2 = contact.effect c s.clock s.store.entries)
    (next : Except StoreError α → StateT Site m β) (P : β → Prop)
    (hnext : ∀ r, ∃ b, next r = pure b ∧ P b) :
    Does note (x >>= next) s fun b calls s' ↦ Course c (· = contact) s calls s' ∧ P b := by
  refine Does.bind_call hx ?_
  obtain ⟨b, hb, hP⟩ := hnext (s.call kind f).1
  rw [hb]
  exact Does.pure ⟨.one (touches_call contact rfl hf) (.refl _), hP⟩

theorem does_setFlag (hstore : Serves note store) (c : Claimant) (ttl : Duration) (s : Site) :
    Does note (c.setFlag store ttl) s fun _ calls s' ↦ Course c (· = .setFlag ttl) s calls s' := by
  by_cases hagain : c.runsAgain = true
  · rw [Claimant.setFlag, if_pos hagain]
    refine (does_reading (c := c) (.setFlag ttl) (hstore.setIfAbsent _ _ _ s) rfl _
      (fun _ ↦ True) ?_).imp fun _ _ _ h ↦ h.1
    intro r
    cases r <;> exact ⟨_, rfl, trivial⟩
  · rw [Claimant.setFlag, if_neg hagain]
    exact Does.pure (.rest (.refl s))

theorem does_flagged (hstore : Serves note store) (c : Claimant) (s : Site) :
    Does note (c.flagged store) s fun _ calls s' ↦ Course c (· = .readFlag) s calls s' := by
  by_cases hagain : c.runsAgain = true
  · rw [Claimant.flagged, if_pos hagain]
    refine (does_reading (c := c) .readFlag (hstore.get _ s) rfl _
      (fun _ ↦ True) ?_).imp fun _ _ _ h ↦ h.1
    intro r
    cases r <;> exact ⟨_, rfl, trivial⟩
  · rw [Claimant.flagged, if_neg hagain]
    exact Does.pure (.rest (.refl s))

theorem does_readLatest (hstore : Serves note store) (hs : s.Honest) :
    Does note (c.readLatest store) s fun r calls s' ↦
      Course c (· = .readLatest) s calls s' ∧ ∃ latest, r.2 = { c with latest } := by
  unfold Claimant.readLatest
  split
  · exact Does.pure ⟨.rest (.refl s), c.latest, rfl⟩
  · split
    · exact Does.pure ⟨.rest (.refl s), some .empty, rfl⟩
    · refine does_reading (c := c) .readLatest (hstore.batch _ s hs) rfl _
        (fun r : Except ClaimError (Dictionary String) × Claimant ↦
          ∃ latest, r.2 = { c with latest }) ?_
      intro r
      cases r with
      | error e => exact ⟨_, rfl, c.latest, rfl⟩
      | ok replies =>
        cases h : Claimant.pairValues c.locations.keys replies with
        | error e => exact ⟨_, by simp only [h]; rfl, c.latest, rfl⟩
        | ok latest => exact ⟨_, by simp only [h]; rfl, some latest, rfl⟩

variable {distance : Distance (StateT Site m)} {measure : String → String → String →
  Except LsnError Int64}

theorem does_offer (hstore : Serves note store)
    (hdistance : ∀ config location baseline,
      distance config location baseline = pure (measure config location baseline))
    (c : Claimant) (locations : List (String × String)) (s : Site) :
    Does note (c.offer store distance locations) s fun _ calls s' ↦
      Course c (fun x ↦ ∃ config location offset, x = .advance config location offset)
        s calls s' := by
  induction locations generalizing s with
  | nil => exact Does.pure (.rest (.refl s))
  | cons head rest ih =>
    obtain ⟨config, location⟩ := head
    rw [Claimant.offer, hdistance, pure_bind]
    cases measure config location ((c.baselines.get? config).getD location) with
    | error e => exact Does.pure (.rest (.refl s))
    | ok offset =>
      refine Does.bind_call (hstore.run _ _ _ s) ?_
      have htouches : Touches c (fun x ↦ ∃ config location offset,
          x = .advance config location offset) s (s.call .run (runProcedure s.clock .advance
            [c.key.latest config, c.key.configs] [location, toString offset.toInt,
              toString c.settings.latestTtl.millis, config])).2 :=
        touches_call (.advance config location offset) ⟨_, _, _, rfl⟩ rfl
      split
      · exact Does.pure (.one htouches (.refl _))
      · exact (ih _).imp fun _ _ _ h ↦ .call (.refl s) htouches h

theorem does_offerLocations (hstore : Serves note store)
    (hdistance : ∀ config location baseline,
      distance config location baseline = pure (measure config location baseline))
    (c : Claimant) (s : Site) :
    Does note (c.offerLocations store distance) s fun _ calls s' ↦
      Course c (fun x ↦ ∃ config location offset, x = .advance config location offset)
        s calls s' := by
  by_cases hempty : c.locations.isEmpty = true
  · rw [Claimant.offerLocations, if_pos hempty]
    exact Does.pure (.rest (.refl s))
  by_cases hwinner : c.winner.isNone = true
  · rw [Claimant.offerLocations, if_neg hempty, if_pos hwinner]
    exact Does.pure (.rest (.refl s))
  · rw [Claimant.offerLocations, if_neg hempty, if_neg hwinner]
    exact does_offer hstore hdistance c c.locations.entries s

end UniqueJobs.Site
