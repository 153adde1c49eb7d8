import UniqueJobs.Proofs.Claimant.Lifetime
import UniqueJobs.Proofs.Contest.Basic
import UniqueJobs.Proofs.Journal.Calls
import UniqueJobs.Proofs.Site.Failure

/-!
What times to live come to at a site whose store is on. A window may be as short or as long as it
likes. The time of a furthest position may not have more milliseconds than 64 bits hold: the offer
then fails, and nothing is made.
-/

namespace UniqueJobs

open Entries

theorem nanos_minTtl : minTtl.nanos = 1_000_000 := by
  simp [minTtl, Duration.ofMillis, Duration.limit, UInt64.size]

/-- Whatever is new under a name lives for the time, which is raised to a millisecond, and for ever
exactly where the clock ends before. -/
structure Site.Lasting (ttl : Duration) (s s' : Site) : Prop where
  clock : s'.clock = s.clock
  isLive (name : String) (e : Entry) (hnone : s.store.entries.live? s.clock name = none)
    (he : s'.store.entries.live? s.clock name = some e) (t : Instant)
    (ht : t.nanos < s.clock.nanos + max ttl.nanos 1_000_000) : e.isLive t = true
  never_iff (name : String) (e : Entry) (hnone : s.store.entries.live? s.clock name = none)
    (he : s'.store.entries.live? s.clock name = some e) :
    e.expiresAt = none ↔ Instant.limit ≤ s.clock.nanos + max ttl.nanos 1_000_000

/-- Can the locations be measured from the baselines that the claimant knows? -/
def Claimant.CanMeasure (c : Claimant) (measure : String → String → String → Except LsnError Int64)
    (locations : List (String × String)) : Prop :=
  ∀ config location, (config, location) ∈ locations →
    ∃ offset, measure config location ((c.baselines.get? config).getD location) = .ok offset

theorem Site.Course.lasting {c : Claimant} {allowed : Contact → Prop} {s s' : Site}
    {calls : List (Site × Site)} {ttl : Duration} (h : Course c allowed s calls s')
    (hallowed : ∀ contact, allowed contact → contact.LivesFor c ttl) : s.Lasting ttl s' := by
  have hdates (name : String) : Dates (deadline s.clock ttl) (s.store.entries.live? s.clock name)
      (s'.store.entries.live? s.clock name) :=
    h.preserves (P := fun es ↦ Dates (deadline s.clock ttl) (s.store.entries.live? s.clock name)
        (es.live? s.clock name))
      (fun contact es hc hes ↦ hes.trans (contact.dates (hallowed contact hc) s.clock es name))
      (.refl _ _)
  have hnew (name : String) (e : Entry) (hnone : s.store.entries.live? s.clock name = none)
      (he : s'.store.entries.live? s.clock name = some e) : e.expiresAt = deadline s.clock ttl := by
    have hd := hdates name
    rw [hnone] at hd
    exact hd.of_new he
  refine ⟨h.steady.clock, fun name e hnone he t ht ↦ ?_, fun name e hnone he ↦ ?_⟩
  · obtain ⟨content, x⟩ := e
    obtain rfl : x = deadline s.clock ttl := hnew name _ hnone he
    exact isLive_deadline (by rwa [nanos_minTtl])
  · rw [hnew name e hnone he, deadline_eq_none_iff, nanos_minTtl]

theorem Site.Does.of_run {α : Type} {x : StateT Site Id α} {s : Site}
    {P : α → List (Site × Site) → Site → Prop} (h : Does unnoted x s P) :
    ∃ calls, P (Id.run (x.run s)).1 calls (Id.run (x.run s)).2 := by
  obtain ⟨a, calls, s', hrun, hP⟩ := h.exists_run
  rw [hrun]
  exact ⟨calls, hP⟩

namespace Site

variable {c : Claimant} {s : Site}

theorem Calm.onlyOutages (hs : s.Calm) : s.OnlyOutages := by
  intro kind e hmem
  rw [hs.cues] at hmem
  cases hmem

theorem Calm.not_outFor (hs : s.Calm) (why : Outage) : ¬ s.OutFor why := by
  rintro (⟨hoff, -⟩ | ⟨kind, hmem⟩)
  · cases hoff.symm.trans hs.available
  · rw [hs.cues] at hmem
    cases hmem

theorem check_lasting (hs : s.Calm) (hsound : Sound c.key s.clock s.store.entries)
    (window : Duration) :
    let done := Id.run ((c.check recordStore emit window).run s)
    (∃ winner, done.1.1 = .ok winner) ∧ s.Lasting window done.2 := by
  obtain ⟨calls, ⟨s₁, -, htouches, hrests⟩, -, hok⟩ :=
    (does_check (c := c) serves_recordStore hs.honest window).of_run
  refine ⟨hok hsound (hs.refusal? .batch), ?_⟩
  exact (Course.one htouches hrests).lasting fun contact hc ↦ by subst hc; rfl

theorem setFlag_lasting (hs : s.Calm) (c : Claimant) (ttl : Duration) :
    let done := Id.run ((c.setFlag recordStore ttl).run s)
    done.1 = .ok () ∧ s.Lasting ttl done.2 := by
  obtain ⟨calls, hcourse⟩ := (does_setFlag serves_recordStore c ttl s).of_run
  obtain ⟨-, hfails⟩ :=
    (setFlag_failsByOutage (c := c) serves_recordStore hs.onlyOutages ttl).of_run
  refine ⟨?_, hcourse.lasting fun contact hc ↦ by subst hc; rfl⟩
  cases hr : (Id.run ((c.setFlag recordStore ttl).run s)).1 with
  | ok u => rfl
  | error e =>
    obtain ⟨why, -, hwhy⟩ := hfails e hr
    exact absurd hwhy (hs.not_outFor why)

variable {measure : String → String → String → Except LsnError Int64}

theorem offer_of_lt (hs : s.Calm) (hsound : Sound c.key s.clock s.store.entries)
    {locations : List (String × String)} (hmeasures : c.CanMeasure measure locations)
    (hsize : c.settings.latestTtl.millis < UInt64.size) :
    (Id.run ((c.offer recordStore (fun config location baseline ↦
      pure (measure config location baseline)) locations).run s)).1 = .ok () := by
  obtain ⟨-, hfails⟩ := (offer_offerFails measure serves_recordStore (fun _ _ _ ↦ rfl)
    hs.onlyOutages hsound locations).of_run
  generalize (Id.run ((c.offer recordStore _ locations).run s)).1 = r at hfails ⊢
  cases r with
  | ok u => rfl
  | error e =>
    cases hfails e rfl with
    | out hwhy => exact absurd hwhy (hs.not_outFor _)
    | unmeasured hmem hmeasure =>
      obtain ⟨offset, hoffset⟩ := hmeasures _ _ hmem
      cases hmeasure.symm.trans hoffset
    | overlong hlong => omega

/-- The first location is measured, and its time to live cannot be read by the store. -/
theorem offer_of_le (hs : s.Calm) (hsound : Sound c.key s.clock s.store.entries)
    {head : String × String} {rest : List (String × String)}
    (hmeasures : c.CanMeasure measure (head :: rest))
    (hsize : UInt64.size ≤ c.settings.latestTtl.millis) :
    (Id.run ((c.offer recordStore (fun config location baseline ↦
      pure (measure config location baseline)) (head :: rest)).run s)).1 =
        .error (.store (.script (.ttl (toString c.settings.latestTtl.millis) .tooLarge))) := by
  obtain ⟨config, location⟩ := head
  obtain ⟨offset, hoffset⟩ := hmeasures config location List.mem_cons_self
  have hfst : (runProcedure s.clock .advance [c.key.latest config, c.key.configs]
      [location, toString offset.toInt, toString c.settings.latestTtl.millis, config]
        s.store.entries).1 = _ :=
    Contact.advance_fst_of_sound hsound config location offset c.settings.latestTtl.millis
  rw [if_neg (Nat.not_lt_of_le hsize)] at hfst
  have hdoes : Does unnoted (c.offer recordStore (fun config location baseline ↦
      pure (measure config location baseline)) ((config, location) :: rest)) s fun r _ _ ↦
        r = .error (.store (.script (.ttl (toString c.settings.latestTtl.millis) .tooLarge))) := by
    rw [Claimant.offer, pure_bind, hoffset]
    refine does_call hs.onlyOutages (serves_recordStore.run _ _ _ s) _ ?_ ?_
    · exact fun why hwhy ↦ absurd hwhy (hs.not_outFor why)
    · rw [hfst]
      exact Does.pure rfl
  obtain ⟨-, hr⟩ := hdoes.of_run
  exact hr

theorem offerLocations_lasting (hs : s.Calm) (hsound : Sound c.key s.clock s.store.entries)
    (hwinner : c.winner.isNone = false) (hmeasures : c.CanMeasure measure c.locations.entries) :
    let done := Id.run ((c.offerLocations recordStore fun config location baseline ↦
      pure (measure config location baseline)).run s)
    (done.1 = if c.locations.isEmpty ∨ c.settings.latestTtl.millis < UInt64.size then .ok ()
      else .error (.store (.script (.ttl (toString c.settings.latestTtl.millis) .tooLarge)))) ∧
    s.Lasting (.ofMillis c.settings.latestTtl.millis) done.2 := by
  have hdoes : Does unnoted (c.offerLocations recordStore fun config location baseline ↦
      pure (measure config location baseline)) s _ :=
    does_offerLocations serves_recordStore (fun _ _ _ ↦ rfl) c s
  obtain ⟨calls, hcourse⟩ := hdoes.of_run
  refine ⟨?_, hcourse.lasting ?_⟩
  · rw [Claimant.offerLocations, hwinner]
    by_cases hempty : c.locations.isEmpty = true
    · rw [if_pos hempty, if_pos (.inl hempty)]
      rfl
    · rw [if_neg hempty, if_neg Bool.false_ne_true]
      by_cases hsize : c.settings.latestTtl.millis < UInt64.size
      · rw [if_pos (.inr hsize)]
        exact offer_of_lt hs hsound hmeasures hsize
      · rw [if_neg (not_or.mpr ⟨hempty, hsize⟩)]
        cases hentries : c.locations.entries with
        | nil => exact absurd (by simp [Dictionary.isEmpty, hentries]) hempty
        | cons head rest =>
          rw [hentries] at hmeasures
          exact offer_of_le hs hsound hmeasures (Nat.le_of_not_lt hsize)
  · intro contact hc
    obtain ⟨config, location, offset, rfl⟩ := hc
    rfl

end Site

end UniqueJobs
