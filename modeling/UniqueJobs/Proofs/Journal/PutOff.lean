import UniqueJobs.Proofs.Journal.Handover

/-!
A job that is put off to a later date, of a worker whose windows take account of such dates. The
time for which it asks as it is scheduled is told by the wall clock, and the window ends by the
other clock. Main statement: `Traffic.outlasts_date`, that the window lasts past the date.
-/

namespace UniqueJobs

open Entries

namespace Timestamp

/-- What the wall clock shows at the date. It does not know of leap seconds: in one of them it shows
the second before it once more. -/
def onClock (t : Timestamp) : Int := if t.isLeap then t.nanos - 1_000_000_000 else t.nanos

theorem leapShift_of_isLeap_eq_false {t : Timestamp} (h : t.isLeap = false) (later : Timestamp) :
    t.leapShift later = 0 := by
  rw [leapShift, h, Bool.false_and]
  rfl

/-- No date comes later by the wall clock than it is told to come. -/
theorem onClock_le {t now : Timestamp} (hnow : now.isLeap = false) :
    t.onClock ≤ now.nanos + t.since now := by
  cases hleap : t.isLeap with
  | false =>
    rw [since_of_isLeap_eq_false hleap hnow, onClock, hleap, if_neg Bool.false_ne_true]
    omega
  | true =>
    have hshift : t.leapShift now ≤ 1_000_000_000 := by
      rw [leapShift]
      split <;> decide
    rw [onClock, if_pos hleap, since, leapShift_of_isLeap_eq_false hnow]
    omega

theorem eq_of_ofNanos? {n : Int} {t : Timestamp} (h : ofNanos? n = some t) :
    t.nanos = n ∧ t.isLeap = false := by
  rw [ofNanos?, ofParts?] at h
  split at h
  · obtain rfl := Option.some.inj h
    have hpos : 0 ≤ n % 1_000_000_000 := Int.emod_nonneg n (by decide)
    have hlt : n % 1_000_000_000 < 1_000_000_000 := Int.emod_lt_of_pos n (by decide)
    constructor
    · simp only [nanos]
      omega
    · simp only [isLeap, decide_eq_false_iff_not]
      omega
  · cases h

end Timestamp

namespace Claimant

/-- The time until the instance is to run, if it is put off to a date that has not passed. -/
def untilRun (c : Claimant) (now : Timestamp) : Nat := c.runAt.elim 0 fun t ↦ (t.since now).toNat

theorem nanos_window (c : Claimant) (now : Timestamp) :
    (c.window now).nanos = min (c.baseWindow.nanos + c.untilRun now) (Duration.limit - 1) := by
  have hbase := c.baseWindow.fits
  rw [window, untilRun]
  cases c.runAt with
  | none =>
    simp only [Option.bind_none, Option.elim_none]
    omega
  | some t =>
    rw [Option.bind_some, Option.elim_some, Timestamp.remaining?]
    by_cases hahead : 0 ≤ t.since now
    · simp only [if_pos hahead, Duration.add, Duration.nanos_ofNanos]
      omega
    · simp only [if_neg hahead]
      omega

/-- A record that is made for the window lives for all of its time, also where that is too long to
be told or the clock ends before. -/
theorem isLive_window {c : Claimant} {now : Timestamp} {content : Content} {t u : Instant}
    (h : u.nanos < t.nanos + (c.baseWindow.nanos + c.untilRun now)) :
    Entry.isLive ⟨content, deadline t (c.window now)⟩ u = true := by
  have hnanos := c.nanos_window now
  by_cases hfits : c.baseWindow.nanos + c.untilRun now < Duration.limit
  · exact isLive_deadline (by omega)
  · have hlong : Instant.limit ≤ (c.window now).nanos := by
      have hlimit : Instant.limit ≤ Duration.limit - 1 := by decide
      omega
    have hmin : minTtl.nanos < Instant.limit := by decide
    have hnever : deadline t (c.window now) = none := by
      rw [deadline, if_neg (by omega), Instant.after?, if_neg (by omega)]
    rw [hnever]
    rfl

/-- What an instance is given as its job identifies it once more. -/
theorem ofJob_ofJob (settings : Settings) (worker : Option Worker) (job : Job) :
    (ofJob settings worker (ofJob settings worker job).2).1 = (ofJob settings worker job).1 := by
  cases hkey : job.key <;> simp [ofJob, Job.identify, hkey]

theorem includingScheduled_ofJob {settings : Settings} {worker : Option Worker} {job : Job}
    (h : (worker.getD .unknown).uniqueness.includingScheduled = true) :
    (ofJob settings worker job).1.uniqueness.includingScheduled = true := by
  rw [uniqueness, workerOrUnknown, (ofJob_facts settings worker job).1]
  exact h

end Claimant

/-- Are the worker's jobs looked at as they are scheduled, also if they are put off? -/
def Site.Includes (s : Site) (worker : String) : Prop :=
  ((s.workers.get? worker).getD .unknown).uniqueness.includingScheduled = true

variable {settings : Settings} {strategy : Strategy} {worker : String} {k : JobKey} {M : Measures}
  {J : JobId} {caller : Caller} {s s' site : Site} {notes : List Note} {given : Job}

theorem Site.Later.includes {d : Nat} (h : s.Later d s') (hs : s.Includes worker) :
    s'.Includes worker := by
  rw [Site.Includes, h.workers]
  exact hs

namespace Pass

variable {p : Pass}

/-- An instance of such a worker is handed over to be scheduled only after its check, which asks for
the window for as long as the instance would hold it by then. -/
theorem Enters.exists_claim {held : Bool} (h : p.Enters s held notes given s')
    (hstage : p.caller.stage = .schedule)
    (hincludes : p.claimant.uniqueness.includingScheduled = true) :
    ∃ window s₁ more, notes = (Contact.claim window).note p.caller p.claimant s₁ :: more ∧
      s₁.date?.map p.claimant.window = some window := by
  have hreads {job : Job} {s₁ : Site} {notes : List Note} (hread : p.Reads s notes job s₁) :
      notes = [] := by
    cases hread with
    | schedule => rfl
    | perform hperform => cases hstage.symm.trans hperform
  have hcalls {window : Duration} {s₁ s₂ : Site} {notes : List Note}
      (hclaim : Calls p.caller p.claimant [.claim window] s₁ notes s₂)
      (hwindow : s₁.date?.map p.claimant.window = some window) :
      ∃ s₃, notes = [(Contact.claim window).note p.caller p.claimant s₃] ∧
        s₃.date?.map p.claimant.window = some window := by
    cases hclaim with
    | @call _ _ _ s₃ _ _ hquiet hrest =>
      cases hrest
      exact ⟨s₃, rfl, by rwa [hquiet.like.date?]⟩
  cases h with
  | bypass _ _ hexcluded => cases hincludes.symm.trans hexcluded
  | unasked hperform => cases hstage.symm.trans hperform
  | unanswered _ _ hread hclaim _ hwindow =>
    obtain ⟨s₃, rfl, hwindow⟩ := hcalls hclaim hwindow
    rw [hreads hread]
    exact ⟨_, s₃, [], rfl, hwindow⟩
  | own _ hread hclaims =>
    cases hclaims with
    | intro hclaim _ _ _ _ hwindow =>
      obtain ⟨s₃, rfl, hwindow⟩ := hcalls hclaim hwindow
      rw [hreads hread]
      exact ⟨_, s₃, _, rfl, hwindow⟩

/-- The holder of the window is not kept from its continuation by another instance. -/
theorem Barred.ne_barred {o : Outcome} (h : p.Barred s o notes s') (hkey : p.claimant.key = k)
    (hholder : s.holder? k = some p.claimant.id) (winner : JobId) : o ≠ .barred winner := by
  cases h with
  | refused => rintro ⟨⟩
  | foreign _ hread hclaims hne =>
    exfalso
    rcases (hclaims.holder?_eq (M := fun _ ↦ True) hkey trivial).2 with hother | ⟨hfree, -⟩
    · rw [hread.holder?, hholder] at hother
      exact hne (Option.some.inj hother).symm
    · rw [← hread.holder?, Site.holder?_of_live?_eq_none hfree] at hholder
      cases hholder

/-- Of sound records, no instance but the holder of the window is handed over to be scheduled. -/
theorem Enters.eq_holder {held : Bool} (h : p.Enters s held notes given s')
    (hstage : p.caller.stage = .schedule) (hkey : p.claimant.key = k)
    (hincludes : p.claimant.uniqueness.includingScheduled = true)
    (hs : Sound k s.clock s.store.entries) (hholder : s.holder? k = some J) :
    p.claimant.id = J := by
  cases h with
  | bypass _ _ hexcluded => cases hincludes.symm.trans hexcluded
  | unasked hperform => cases hstage.symm.trans hperform
  | unanswered _ _ hread _ hsound =>
    rw [hkey] at hsound
    exact absurd (hread.sound hkey hs) hsound
  | own _ hread hclaims =>
    rcases (hclaims.holder?_eq (M := fun _ ↦ True) hkey trivial).2 with hown | ⟨hfree, -⟩
    · rw [hread.holder?, hholder] at hown
      exact (Option.some.inj hown).symm
    · rw [← hread.holder?, Site.holder?_of_live?_eq_none hfree] at hholder
      cases hholder

end Pass

/-- The check of an instance among the notes, before it is handed over. -/
theorem Happens.exists_check {t : Traffic} {place : List Bool}
    (h : Happens settings strategy t place s notes s')
    (ht : t.Passes fun _ job _ ↦ job.worker = worker ∧ (job.identify settings.keyspace).1 = k)
    (hincludes : s.Includes worker) (hn : .handed caller given site ∈ notes)
    (hstage : caller.stage = .schedule) :
    ∃ c first window s₁ rest, c = (Claimant.ofJob settings (s.workers.get? worker) given).1 ∧
      c.key = k ∧ c.id = caller.id ∧ s₁.date?.map c.window = some window ∧
      notes = first ++ (Contact.claim window).note caller c s₁ :: rest ∧
      .handed caller given site ∈ rest := by
  obtain ⟨job, measure, held, first, before, rest, s₁, ⟨rfl, hkey⟩, hid, rfl, hfirst, henters⟩ :=
    h.exists_enters (M := fun _ ↦ True) ht (fun _ _ _ h ↦ ⟨h.2, trivial⟩) hn
  obtain ⟨d, hlater⟩ := hfirst.exists_later
  rw [hlater.workers] at henters
  have hgiven := henters.eq_of_schedule hstage
  obtain ⟨window, s₂, more, rfl, hwindow⟩ := henters.exists_claim hstage
    (Claimant.includingScheduled_ofJob hincludes)
  have hclaimant : (Claimant.ofJob settings (s.workers.get? job.worker) job).1 =
      (Claimant.ofJob settings (s.workers.get? job.worker) given).1 := by
    rw [hgiven]
    exact (Claimant.ofJob_ofJob ..).symm
  obtain ⟨-, -, hcid, hckey, -⟩ := Claimant.ofJob_facts settings (s.workers.get? job.worker) job
  exact ⟨_, first, window, s₂, more ++ .handed caller given site :: rest, hclaimant,
    hckey.trans hkey, hcid.trans hid, hwindow, by simp [Pass.ofJob], by simp⟩

/-- Does each run of the traffic from a site end with such a note, and is there one unless the
calendar ends first? -/
def Site.Concludes (settings : Settings) (t : Traffic) (Q : Note → Prop) (s : Site) : Prop :=
  (¬ Overdue (s.wall + t.duration) → ∃ log s', t.journal? settings s = some (log, s')) ∧
    ∀ log s', t.journal? settings s = some (log, s') → ∃ first n, log = first ++ [n] ∧ Q n

/-- Does an instance hold the window at a site, so that no other one keeps it from being
performed? -/
structure Site.Favours (settings : Settings) (worker : String) (k : JobKey) (J : JobId) (s : Site) :
    Prop where
  holder : s.holder? k = some J
  not_skipped : ∀ job measure inside finish, job.worker = worker →
    (job.identify settings.keyspace).1 = k → job.id = J →
      (inside.Passes fun _ job _ ↦ job.worker = worker ∧ (job.identify settings.keyspace).1 = k) →
        s.Concludes settings (.pass .perform job measure inside finish .none) fun n ↦
          ∃ result s', n = .performed ⟨.perform, J, []⟩ result s' ∧
            ∀ winner, result ≠ .ok (.skipped winner)

/-- Is every other instance that comes to be scheduled dropped as a duplicate of this one? -/
def Site.DropsOthers (settings : Settings) (worker : String) (k : JobKey) (J : JobId) (s : Site) :
    Prop :=
  ∀ job measure inside finish, job.worker = worker → (job.identify settings.keyspace).1 = k →
    job.id ≠ J →
      (inside.Passes fun _ job _ ↦ job.worker = worker ∧ (job.identify settings.keyspace).1 = k) →
        s.Concludes settings (.pass .schedule job measure inside finish .none) fun n ↦
          ∃ s', n = .scheduled ⟨.schedule, job.id, []⟩ (.ok (.dropped J)) s'

theorem Site.Calm.favours (hs : s.Calm) (hlocks : (s.strategyFor worker).locks = true)
    (hholder : s.holder? k = some J) : s.Favours settings worker k J := by
  refine ⟨hholder, ?_⟩
  intro job measure inside finish hworker hkey hid hinside
  obtain ⟨hends, hhappens⟩ := Traffic.happens_under settings
    (.pass .perform job measure inside finish .none)
    ⟨hworker, hinside.imp fun _ _ _ h ↦ h.1, trivial⟩ hs rfl hlocks
  refine ⟨hends, ?_⟩
  intro log s' hrun
  subst hid
  cases hhappens log s' hrun with
  | @barred _ _ _ _ _ _ _ o own _ _ _ _ _ hquiet hbarred hrest =>
    cases hrest
    have hne := hbarred.ne_barred (Pass.key_ofJob.trans hkey)
      (by rw [hquiet.holder?, hholder, Pass.id_ofJob])
    refine ⟨own, _, rfl, o.performed, _, rfl, ?_⟩
    intro winner hskipped
    cases o with
    | ended result => cases result <;> cases hskipped
    | barred other => exact hne other rfl
    | refused => cases hskipped
  | through _ _ _ _ _ hrest =>
    cases hrest
    refine ⟨_, _, rfl, Outcome.performed _, _, rfl, ?_⟩
    intro winner hskipped
    rw [Outcome.performed_ended] at hskipped
    split at hskipped <;> cases hskipped

theorem Site.Ready.dropsOthers (hs : s.Ready strategy worker k) (hlocks : strategy.locks = true)
    (hincludes : s.Includes worker) (hholder : s.holder? k = some J) :
    s.DropsOthers settings worker k J := by
  intro job measure inside finish hworker hkey hid hinside
  have hpasses : (Traffic.pass .schedule job measure inside finish .none).Passes fun _ job _ ↦
      job.worker = worker ∧ (job.identify settings.keyspace).1 = k :=
    ⟨⟨hworker, hkey⟩, hinside, trivial⟩
  obtain ⟨hends, hhappens⟩ := hs.happens hlocks hpasses
  refine ⟨hends, ?_⟩
  intro log s' hrun
  have hsound := hs.sound
  subst hworker
  cases hhappens log s' hrun with
  | @barred _ _ _ _ _ _ _ _ own _ _ _ _ _ hquiet hbarred hrest =>
    cases hrest
    rw [← hquiet.clock, ← hquiet.store] at hsound
    obtain ⟨winner, rfl, -, hother⟩ := hbarred.exists_holder (M := fun _ ↦ True)
      (Pass.key_ofJob.trans hkey) trivial hsound
    rw [hquiet.holder?, hholder] at hother
    cases hother
    exact ⟨own, _, rfl, _, rfl⟩
  | through hquiet henters =>
    rw [← hquiet.clock, ← hquiet.store] at hsound
    have hown := henters.eq_holder rfl (Pass.key_ofJob.trans hkey)
      (Claimant.includingScheduled_ofJob hincludes) hsound ((hquiet.holder? k).trans hholder)
    rw [Pass.id_ofJob] at hown
    exact absurd hown hid

/-- Is it the check of an instance, which asks for the window for a time? -/
def Note.Asks (k : JobKey) (caller : Caller) (window : Duration) (n : Note) : Prop :=
  ∃ requests failure, n = .called caller (.batch requests) failure n.before n.after ∧
    .setIfAbsent k.text caller.id.text window ∈ requests

/-- Does something hold from a note on, wherever the notes after it lead and at any time there,
until the wall clock comes to a date or the key is released? -/
def Note.Keeps (k : JobKey) (date : Int) (P : Site → Prop) (n : Note) (rest : List Note) : Prop :=
  ∀ span late d, rest = span ++ late → (∀ m ∈ span, ¬ m.Releases k) →
    ((n.after.past span).advance d).wall < date → P ((n.after.past span).advance d)

/-- The record that a claim makes of a free window is there until the date and the usual time after
it have passed by the wall clock. -/
theorem Claimant.holder?_past {c : Claimant} {now runAt : Timestamp} {d : Duration}
    (h : Chain (Move k M) (s.met c (.claim (c.window now))) notes s') (hkey : c.key = k)
    (hdate : s.date? = some now) (hrunAt : c.runAt = some runAt)
    (hfree : s.store.entries.live? s.clock k.text = none) (hkept : ∀ n ∈ notes, ¬ n.Releases k)
    (hearly : (((s.met c (.claim (c.window now))).past notes).advance d).wall <
      runAt.onClock + c.baseWindow.nanos) :
    (((s.met c (.claim (c.window now))).past notes).advance d).holder? k = some c.id := by
  subst hkey
  have hlive := Contact.live?_claim c (c.window now) s.clock s.store.entries
  rw [hfree, Option.getD_none] at hlive
  have hclocks := h.clocks
  rw [h.still_past.wall, h.still_past.clock] at hclocks
  obtain ⟨hnanos, hleap⟩ := Timestamp.eq_of_ofNanos? hdate
  have hdue := runAt.onClock_le hleap
  have huntil : c.untilRun now = (runAt.since now).toNat := by
    rw [untilRun, hrunAt, Option.elim_some]
  have hx : Entry.isLive ⟨.text c.id.text, deadline s.clock (c.window now)⟩
      (((s.met c (.claim (c.window now))).past notes).advance d).clock = true := by
    apply isLive_window
    simp only [Site.advance, Site.met, Site.keeping] at hclocks hearly ⊢
    omega
  rw [Site.holder?_eq_some_iff]
  exact text?_of_live? (h.live?_past hkept hlive (Nat.le_add_right _ _) hx)

/-- From the check that has made the record on, what is found wherever the notes after it lead. -/
theorem Chain.holder?_past {c : Claimant} {now runAt : Timestamp} {s₁ u : Site}
    {first span late : List Note} {d : Duration}
    (h : Chain (Move k M) s (first ++ (Contact.claim (c.window now)).note caller c s₁ ::
      (span ++ late)) s') (hkey : c.key = k) (hdate : s₁.date? = some now)
    (hrunAt : c.runAt = some runAt) (hfree : s₁.store.entries.live? s₁.clock k.text = none)
    (hkept : ∀ n ∈ span, ¬ n.Releases k)
    (hu : u = ((s₁.met c (.claim (c.window now))).past span).advance d)
    (hearly : u.wall < runAt.onClock + c.baseWindow.nanos) :
    u.holder? k = some c.id ∧ (∃ e, s.Later e u) ∧
      (Sound k s.clock s.store.entries → Sound k u.clock u.store.entries) := by
  have hsplit : first ++ (Contact.claim (c.window now)).note caller c s₁ :: (span ++ late) =
      (first ++ (Contact.claim (c.window now)).note caller c s₁ :: span) ++ late := by simp
  rw [hsplit] at h
  obtain ⟨s₂, hup, -⟩ := h.exists_between
  have hpast := s.past_append_cons first span ((Contact.claim (c.window now)).note caller c s₁)
  have hlater := hup.exists_later_past d
  have hsound (hs : Sound k s.clock s.store.entries) := hup.sound_past hs d
  rw [hpast] at hlater hsound
  obtain ⟨s₃, -, hcheck⟩ := hup.exists_between
  cases hcheck with
  | step _ _ hspan =>
    subst hu
    exact ⟨Claimant.holder?_past hspan hkey hdate hrunAt hfree hkept hearly, hlater, hsound⟩

structure Outlook where
  headline : Headline
  releases : Bool
  free : Bool
  runAt : Option Timestamp
  wall : Nat
  deriving DecidableEq

def Note.job? : Note → Option Job
  | .handed _ job _ => some job
  | _ => none

def Note.outlook (k : JobKey) (n : Note) : Outlook where
  headline := n.headline
  releases := n.isRelease
  free := (n.before.store.entries.live? n.before.clock k.text).isNone
  runAt := n.job?.bind Job.runAt
  wall := n.after.wall

namespace Traffic

/-- A job that is put off to a date, of a worker whose windows take account of such dates, holds the
window that it wins until the usual time after the date has passed by the wall clock. The time that
it asks for is never shorter than the usual one, and no longer than can be told. -/
theorem outlasts_date {settings : Settings} {worker : String} {k : JobKey} (t : Traffic) {s : Site}
    (ht : t.Passes fun _ job _ ↦ job.worker = worker ∧ (job.identify settings.keyspace).1 = k)
    (hs : s.Calm) (hlocks : (s.strategyFor worker).locks = true) (hincludes : s.Includes worker) :
    (¬ Overdue (s.wall + t.duration) → ∃ log s', t.journal? settings s = some (log, s')) ∧
      (∀ log s', t.journal? settings s = some (log, s') → ∀ caller given site,
        .handed caller given site ∈ log → caller.stage = .schedule →
          ∃ c first check rest now, c = (Claimant.ofJob settings (s.workers.get? worker) given).1 ∧
            log = first ++ check :: rest ∧ .handed caller given site ∈ rest ∧
            check.before.date? = some now ∧ check.Asks k caller (c.window now) ∧
            (check.before.store.entries.live? check.before.clock k.text = Option.none →
              ∀ runAt, given.runAt = some runAt →
                check.Keeps k (runAt.onClock + c.baseWindow.nanos)
                  (Site.Favours settings worker k caller.id) rest ∧
                (Sound k s.clock s.store.entries →
                  check.Keeps k (runAt.onClock + c.baseWindow.nanos)
                    (Site.DropsOthers settings worker k caller.id) rest))) ∧
      ∀ (c : Claimant) (now : Timestamp), c.baseWindow.nanos ≤ (c.window now).nanos ∧
        (c.window now).nanos = min (c.baseWindow.nanos + c.untilRun now) (Duration.limit - 1) := by
  obtain ⟨hends, hhappens⟩ := t.happens_under settings (ht.imp fun _ _ _ h ↦ h.1) hs rfl hlocks
  refine ⟨hends, ?_, ?_⟩
  · intro log s' hrun caller given site hn hstage
    have hhappens := hhappens log s' hrun
    have hmoves := hhappens.moves ht
    obtain ⟨c, first, window, s₁, rest, hc, hkey, hid, hwindow, rfl, hmem⟩ :=
      hhappens.exists_check ht hincludes hn hstage
    obtain ⟨now, hdate, rfl⟩ := Option.map_eq_some_iff.mp hwindow
    refine ⟨c, first, _, rest, now, hc, rfl, hmem, hdate, ⟨_, _, rfl, ?_⟩, ?_⟩
    · rw [← hkey, ← hid]
      simp [Claimant.claimRequests, Claimant.claimWrites]
    intro hfree runAt hrunAt
    have hput : c.runAt = some runAt := by
      rw [hc, (Claimant.ofJob_facts settings _ given).2.2.2.2.2.1, hrunAt]
    constructor
    · rintro span late d rfl hkept hearly
      obtain ⟨hholder, ⟨e, hlater⟩, -⟩ :=
        hmoves.holder?_past hkey hdate hput hfree hkept rfl hearly
      rw [← hlater.strategyFor worker] at hlocks
      rw [hid] at hholder
      exact (hlater.calm hs).favours hlocks hholder
    · rintro hsound span late d rfl hkept hearly
      obtain ⟨hholder, ⟨e, hlater⟩, hsound'⟩ :=
        hmoves.holder?_past hkey hdate hput hfree hkept rfl hearly
      rw [hid] at hholder
      exact Site.Ready.dropsOthers ⟨hlater.calm hs, hlater.strategyFor worker, hsound' hsound⟩
        hlocks (hlater.includes hincludes) hholder
  · intro c now
    have hnanos := c.nanos_window now
    have hfits := c.baseWindow.fits
    exact ⟨by omega, hnanos⟩

/-- An instance is put off by ten hours and another one is dropped for it. Then the date passes, and
most of the usual time after it. -/
def farOff : Traffic :=
  through .schedule { pieceOfWork "a" with runAt := Timestamp.ofSecs? 1_700_036_000 } none <|
    through .schedule (pieceOfWork "b") none <| wait (.ofSecs 57_000) none

/-- The check of the instance is the first note, and there is no other call of it and no release. -/
theorem exists_journal_farOff : ∃ check given site notes last s',
    farOff.journal? .default (shopWith Worker.newIdempotent.includingScheduled) =
        some (check :: .handed ⟨.schedule, ⟨"a"⟩, []⟩ given site :: (notes ++ [last]), s') ∧
      (check.outlook ⟨"k"⟩).free = true ∧ given.runAt = Timestamp.ofSecs? 1_700_036_000 ∧
      last.after.wall = 1_700_057_000_000_000_000 ∧
      ∀ n ∈ .handed ⟨.schedule, ⟨"a"⟩, []⟩ given site :: (notes ++ [last]), n.isRelease = false ∧
        ∀ failed, n.headline ≠ .called ⟨.schedule, ⟨"a"⟩, []⟩ failed := by
  let caller : Caller := ⟨.schedule, ⟨"a"⟩, []⟩
  let start := 1_700_000_000_000_000_000
  have hrun : (farOff.journal? .default (shopWith Worker.newIdempotent.includingScheduled)).map
      (fun r ↦ r.1.map (Note.outlook ⟨"k"⟩)) =
        some ([⟨.called caller false, false, true, .none, start⟩] ++
          ⟨.handed caller, false, false, Timestamp.ofSecs? 1_700_036_000, start⟩ ::
            ([⟨.finished caller false, false, false, .none, start⟩,
              ⟨.scheduled caller .passed, false, false, .none, start⟩,
              ⟨.called ⟨.schedule, ⟨"b"⟩, [false]⟩ false, false, false, .none, start⟩,
              ⟨.scheduled ⟨.schedule, ⟨"b"⟩, [false]⟩ (.barred ⟨"a"⟩), false, false, .none,
                start⟩] ++ [⟨.waited, false, false, .none, 1_700_057_000_000_000_000⟩])) := by
    decide +kernel
  obtain ⟨first, n, more, s', hjournal, hfirst, hn, hmore⟩ := exists_note_of_outline hrun
  obtain ⟨given, site, rfl⟩ := Note.exists_handed (congrArg Outlook.headline hn)
  obtain ⟨check, rfl, hcheck⟩ := List.map_eq_singleton_iff.mp hfirst
  obtain ⟨notes, lasts, rfl, hnotes, hlasts⟩ := List.map_eq_append_iff.mp hmore
  obtain ⟨last, rfl, hlast⟩ := List.map_eq_singleton_iff.mp hlasts
  refine ⟨check, given, site, notes, last, s', hjournal, congrArg Outlook.free hcheck,
    congrArg Outlook.runAt hn, congrArg Outlook.wall hlast, ?_⟩
  intro m hm
  have houtlook := List.mem_map_of_mem (f := Note.outlook ⟨"k"⟩) hm
  rw [List.map_cons, List.map_append, hn, hnotes, hlasts] at houtlook
  change (m.outlook ⟨"k"⟩).releases = false ∧ ∀ failed, (m.outlook ⟨"k"⟩).headline ≠ _
  generalize m.outlook ⟨"k"⟩ = o at houtlook ⊢
  simp only [List.mem_cons, List.mem_append, List.not_mem_nil, or_false, or_assoc] at houtlook
  rcases houtlook with rfl | rfl | rfl | rfl | rfl | rfl <;> simp [caller]

theorem outlasts_date_farOff :
    ∃ log last s', farOff.journal? .default (shopWith Worker.newIdempotent.includingScheduled) =
        some (log ++ [last], s') ∧ last.after.wall = 1_700_057_000_000_000_000 ∧
      last.after.Favours .default "w" ⟨"k"⟩ ⟨"a"⟩ ∧
      last.after.DropsOthers .default "w" ⟨"k"⟩ ⟨"a"⟩ := by
  obtain ⟨m, given, site, notes, last, s', hjournal, hfree, hrunAt, hwall, hall⟩ :=
    exists_journal_farOff
  have hpasses : farOff.Passes fun _ job _ ↦ job.worker = "w" ∧
      (job.identify Settings.default.keyspace).1 = ⟨"k"⟩ :=
    ⟨⟨rfl, rfl⟩, trivial, ⟨rfl, rfl⟩, trivial, trivial⟩
  have hincludes : (shopWith Worker.newIdempotent.includingScheduled).Includes "w" := rfl
  obtain ⟨c, early, check, rest, now, rfl, hlog, -, -, ⟨requests, failure, hcheck, -⟩, hkeeps⟩ :=
    (outlasts_date farOff hpasses ⟨rfl, rfl⟩ rfl hincludes).2.1 _ s' hjournal
      ⟨.schedule, ⟨"a"⟩, []⟩ given site (by simp) rfl
  obtain rfl : early = [] := by
    cases early with
    | nil => rfl
    | cons x early =>
      rw [(List.cons.inj hlog).2] at hall
      have hcalled : check.headline = .called ⟨.schedule, ⟨"a"⟩, []⟩ failure.isSome := by
        rw [hcheck]
        rfl
      exact absurd hcalled ((hall check (by simp)).2 failure.isSome)
  obtain ⟨rfl, rfl⟩ := List.cons.inj hlog
  obtain ⟨date, hdate, hclock⟩ : ∃ date, Timestamp.ofSecs? 1_700_036_000 = some date ∧
      date.onClock = 1_700_036_000_000_000_000 := ⟨_, rfl, by decide⟩
  obtain ⟨hfavours, hdrops⟩ := hkeeps (Option.isNone_iff_eq_none.mp hfree) date
    (hrunAt.trans hdate)
  have hpast : (m.after.past (.handed ⟨.schedule, ⟨"a"⟩, []⟩ given site ::
      (notes ++ [last]))).advance .zero = last.after := by
    rw [← List.cons_append, Site.past_append_cons]
    rfl
  have hbase : (Claimant.ofJob Settings.default ((shopWith
      Worker.newIdempotent.includingScheduled).workers.get? "w") given).1.baseWindow =
        Settings.default.window := rfl
  have hkept := fun n hn ↦ Note.not_releases_of_isRelease (k := ⟨"k"⟩) (hall n hn).1
  have hfavoured := hfavours _ [] .zero (List.append_nil _).symm hkept
  have hdropped := hdrops (.empty _ _) _ [] .zero (List.append_nil _).symm hkept
  rw [hpast, hwall, hclock, hbase] at hfavoured hdropped
  have hearly : (1_700_057_000_000_000_000 : Int) <
      1_700_036_000_000_000_000 + Settings.default.window.nanos := by decide
  exact ⟨m :: .handed _ given site :: notes, last, s', hjournal, hwall, hfavoured hearly,
    hdropped hearly⟩

end Traffic

end UniqueJobs
