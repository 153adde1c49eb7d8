import UniqueJobs.Proofs.Job.Wire
import UniqueJobs.Proofs.Journal.Cover
import UniqueJobs.Proofs.Journal.Exclusion
import UniqueJobs.Proofs.Journal.Rerun

/-!
A job that is scheduled through one gate and performed through another one. The gates share the
store and the worker's options and nothing else: the job brings its key along, and the window that
the instance has won is its own there. Main statement: `Traffic.handed_over`.
-/

namespace UniqueJobs

open Entries

/-- Two sites are alike to one worker's jobs of one key: in the records of the key, in the time that
they last and in the worker's options. -/
structure Site.Shares (worker : String) (k : JobKey) (s s' : Site) : Prop where
  available : s'.store.available = s.store.available
  cues : s'.cues = s.cues
  clock : s'.clock = s.clock
  records : ∀ r : Record,
    s'.store.entries.live? s.clock (r.name k) = s.store.entries.live? s.clock (r.name k)
  options : s'.workers.get? worker = s.workers.get? worker
  switch : s'.off.contains worker = s.off.contains worker

/-- Traffic through one gate after another, with what they note down. -/
inductive Relay (worker : String) (k : JobKey) : Site → List Note → Site → Prop
  | done {s s' : Site} (h : s.Shares worker k s') : Relay worker k s [] s'
  | leg {settings : Settings} {t : Traffic} {log more : List Note} {s s₁ s₂ s' : Site}
      (h : s.Shares worker k s₁) (ht : t.Passes fun _ job _ ↦ job.worker = worker ∧
        (job.identify settings.keyspace).1 = k)
      (hrun : t.journal? settings s₁ = some (log, s₂)) (hrest : Relay worker k s₂ more s') :
      Relay worker k s (log ++ more) s'

/-- A calm site where the records of a key are sound. -/
structure Site.Ready (strategy : Strategy) (worker : String) (k : JobKey) (s : Site) : Prop where
  calm : s.Calm
  strategy : s.strategyFor worker = strategy
  sound : Sound k s.clock s.store.entries

variable {settings : Settings} {strategy : Strategy} {worker : String} {k : JobKey} {t : Traffic}
  {s s' : Site} {log : List Note}

theorem Note.exists_handed {n : Note} {caller : Caller} (h : n.headline = .handed caller) :
    ∃ given site, n = .handed caller given site := by
  cases n with
  | handed caller given site =>
    cases h
    exact ⟨given, site, rfl⟩
  | finished _ result => cases result <;> cases h
  | scheduled _ result | performed _ result =>
    rcases result with (_ | _) | (_ | _) <;> cases h
  | called | waited => cases h

def Note.isRelease : Note → Bool
  | .called _ (.run .release _ _) _ _ _ => true
  | _ => false

theorem Note.not_releases_of_isRelease {n : Note} (h : n.isRelease = false) : ¬ n.Releases k := by
  intro hreleases
  obtain ⟨_, _, _, _, _, rfl⟩ := hreleases
  cases h

namespace Site

theorem Shares.refl (s : Site) : s.Shares worker k s := ⟨rfl, rfl, rfl, fun _ ↦ rfl, rfl, rfl⟩

theorem Shares.ready (h : s.Shares worker k s') (hs : s.Ready strategy worker k) :
    s'.Ready strategy worker k where
  calm := ⟨h.available.trans hs.calm.available, h.cues.trans hs.calm.cues⟩
  strategy := by
    rw [← hs.strategy, Site.strategyFor, Site.strategyFor, h.options, h.switch]
  sound := by
    rw [h.clock]
    exact hs.sound.congr h.records

theorem Shares.live? (h : s.Shares worker k s') (r : Record) :
    s'.store.entries.live? s'.clock (r.name k) = s.store.entries.live? s.clock (r.name k) := by
  rw [h.clock]
  exact h.records r

theorem Ready.happens (hs : s.Ready strategy worker k) (hlocks : strategy.locks = true)
    (ht : t.Passes fun _ job _ ↦ job.worker = worker ∧ (job.identify settings.keyspace).1 = k) :
    (¬ Overdue (s.wall + t.duration) → ∃ log s', t.journal? settings s = some (log, s')) ∧
      ∀ log s', t.journal? settings s = some (log, s') → Happens settings strategy t [] s log s' :=
  t.happens_under settings (ht.imp fun _ _ _ h ↦ h.1) hs.calm hs.strategy hlocks

end Site

theorem Happens.moves (h : Happens settings strategy t [] s log s')
    (ht : t.Passes fun _ job _ ↦ job.worker = worker ∧ (job.identify settings.keyspace).1 = k) :
    Chain (Move k fun _ ↦ True) s log s' :=
  (h.chain (ht.imp fun _ _ _ h ↦ ⟨h.2, trivial⟩)).imp fun _ hn ↦ hn.1

theorem Happens.ready (h : Happens settings strategy t [] s log s') (hs : s.Ready strategy worker k)
    (ht : t.Passes fun _ job _ ↦ job.worker = worker ∧ (job.identify settings.keyspace).1 = k) :
    s'.Ready strategy worker k where
  calm := h.later.calm hs.calm
  strategy := (h.later.strategyFor worker).trans hs.strategy
  sound := (h.moves ht).sound hs.sound

namespace Relay

variable {notes : List Note}

theorem ready (h : Relay worker k s notes s') (hlocks : strategy.locks = true)
    (hs : s.Ready strategy worker k) : s'.Ready strategy worker k := by
  induction h with
  | done h => exact h.ready hs
  | leg h ht hrun _ ih =>
    have hs₁ := h.ready hs
    exact ih (((hs₁.happens hlocks ht).2 _ _ hrun).ready hs₁ ht)

theorem clock_le (h : Relay worker k s notes s') (hlocks : strategy.locks = true)
    (hs : s.Ready strategy worker k) : s.clock.nanos ≤ s'.clock.nanos := by
  induction h with
  | done h => exact Nat.le_of_eq (by rw [h.clock])
  | leg h ht hrun _ ih =>
    have hs₁ := h.ready hs
    have hhappens := (hs₁.happens hlocks ht).2 _ _ hrun
    rw [← h.clock]
    exact Nat.le_trans (hhappens.moves ht).clock_le (ih (hhappens.ready hs₁ ht))

/-- Up to its expiry the window of an instance lasts through traffic in which nothing is
released. -/
theorem live?_holder {v : String} {x : Option Instant} (h : Relay worker k s notes s')
    (hlocks : strategy.locks = true) (hs : s.Ready strategy worker k)
    (hkept : ∀ n ∈ notes, ¬ n.Releases k)
    (hlive : s.store.entries.live? s.clock k.text = some ⟨.text v, x⟩)
    (hx : Entry.isLive ⟨.text v, x⟩ s'.clock = true) :
    s'.store.entries.live? s'.clock k.text = some ⟨.text v, x⟩ := by
  induction h with
  | done h => exact (h.live? .holder).trans hlive
  | leg h ht hrun hrest ih =>
    obtain ⟨hlog, hmore⟩ := List.forall_mem_append.mp hkept
    have hs₁ := h.ready hs
    have hhappens := (hs₁.happens hlocks ht).2 _ _ hrun
    have hs₂ := hhappens.ready hs₁ ht
    have hx₂ := Entry.isLive_mono (hrest.clock_le hlocks hs₂) hx
    exact ih hs₂ hmore ((hhappens.moves ht).live?_text hlog ((h.live? .holder).trans hlive) hx₂) hx

end Relay

namespace Pass

variable {p : Pass} {held : Bool} {given : Job} {notes : List Note}

/-- On the side that schedules nothing is attached to the job but its key. -/
theorem Enters.eq_of_schedule (h : p.Enters s held notes given s')
    (hstage : p.caller.stage = .schedule) : given = p.job := by
  have hreads {s₁ : Site} {notes : List Note} (hread : p.Reads s notes given s₁) :
      given = p.job := by
    cases hread with
    | schedule => rfl
    | perform hperform => cases hstage.symm.trans hperform
  cases h with
  | bypass => rfl
  | unasked _ _ hread => exact hreads hread
  | unanswered _ _ hread => exact hreads hread
  | own _ hread => exact hreads hread

theorem Enters.held_of_perform (h : p.Enters s held notes given s')
    (hstage : p.caller.stage = .perform) (hkey : p.claimant.key = k)
    (hs : Sound k s.clock s.store.entries) : held = true ∨ p.strategy = .untilExecuted := by
  cases h with
  | bypass hschedule => cases hstage.symm.trans hschedule
  | unasked _ hcleared => exact .inr hcleared
  | unanswered _ _ hread _ hsound =>
    rw [hkey] at hsound
    exact absurd (hread.sound hkey hs) hsound
  | own => exact .inl rfl

/-- Under either strategy that locks, a performance that has succeeded leaves no record behind. -/
theorem Leaves.clears (h : p.Leaves s held (.ok ()) notes s') (hstage : p.caller.stage = .perform)
    (hheld : held = true ∨ p.strategy = .untilExecuted) (hkey : p.claimant.key = k)
    (hs : Sound k s.clock s.store.entries) (r : Record) :
    s'.store.entries.live? s'.clock (r.name k) = none := by
  cases h with
  | schedule hschedule => cases hstage.symm.trans hschedule
  | kept _ hkept hnot =>
    rcases hheld with rfl | hcleared
    · simp at hnot
    · cases hkept.symm.trans hcleared
  | released _ hstrategy h =>
    exact (Leaves.released hstage hstrategy h).live?_eq_none hkey hstage hstrategy hs r
  | cleared _ _ h hlast =>
    obtain ⟨_, released, -, -, -, hstill, hgone⟩ := h.exists_release hkey hs
    have hall := hstill.trans hlast
    rw [hall.clock, hall.store]
    exact hgone r

end Pass

/-- What the continuation is given as a job is scheduled is the job with its key. -/
theorem Happens.given_of_schedule {job given : Job}
    {measure : String → String → String → Except LsnError Int64} {inside : Traffic}
    {finish : Job → Except String Unit × Job} {site : Site}
    (h : Happens settings strategy (.pass .schedule job measure inside finish .none) [] s log s')
    (hkey : (job.identify settings.keyspace).1 = k)
    (hinside : inside.Passes fun _ job _ ↦ (job.identify settings.keyspace).1 = k)
    (hn : .handed ⟨.schedule, job.id, []⟩ given site ∈ log) :
    given = (job.identify settings.keyspace).2 := by
  cases h with
  | barred _ hbarred hrest =>
    cases hrest
    have htouches := hbarred.chain (M := fun _ ↦ True) (Pass.key_ofJob.trans hkey) trivial
    rcases List.mem_append.mp hn with hn | hn
    · cases (htouches.forall_mem _ hn).isOfContinuation
    · exact absurd (List.mem_singleton.mp hn) (Outcome.isOfContinuation_ne rfl)
  | @through _ _ given' _ _ _ _ _ held before within after _ _ _ s₂ s₃ s₄ _ _ henters hwithin
      hleaves _ hrest =>
    cases hrest
    have htouches := henters.chain (M := fun _ ↦ True) (Pass.key_ofJob.trans hkey) trivial
    rcases List.mem_append.mp hn with hn | hn
    · have hown : Note.handed ⟨.schedule, job.id, []⟩ given site ∈ before ++
          (.handed ⟨.schedule, job.id, []⟩ given' s₂ :: within ++
            [.finished ⟨.schedule, job.id, []⟩ (finish given').1 s₃]) ++ after := by
        simpa using hn
      rcases Caller.mem_of_places (hwithin.places hinside) hown rfl with hmem | heq | heq | hmem
      · cases (htouches.forall_mem _ hmem).isOfContinuation
      · obtain rfl := (Note.handed.inj heq).2.1
        rw [henters.eq_of_schedule rfl, Pass.ofJob, Claimant.ofJob]
      · cases heq
      · cases hleaves.isOfContinuation _ hmem
    · exact absurd (List.mem_singleton.mp hn) (Outcome.isOfContinuation_ne rfl)

/-- A job keeps its key on the wire, and keeps to it in any other keyspace and on any other
queue. -/
theorem Job.exists_parsed (keyspace : String) {job : Job} (h : job.WithinDepth) :
    ∃ parsed, ofWire? (job.identify keyspace).2.wire = some parsed ∧
      parsed.worker = job.worker ∧ parsed.id = job.id ∧ ∀ keyspace' queue,
        ((parsed.onQueue queue).identify keyspace').1 = (job.identify keyspace).1 := by
  obtain ⟨given, hgiven⟩ : ∃ given, (job.identify keyspace).2 = given := ⟨_, rfl⟩
  have hfacts : given.args = job.args ∧ given.worker = job.worker ∧ given.id = job.id ∧
      given.key = some (job.identify keyspace).1.text := by
    rw [← hgiven, identify]
    split
    · exact ⟨rfl, rfl, rfl, ‹_›⟩
    · exact ⟨rfl, rfl, rfl, rfl⟩
  obtain ⟨hargs, hworker, hid, hkey⟩ := hfacts
  have hdepth : given.WithinDepth := by
    rw [WithinDepth, hargs]
    exact h
  rw [hgiven]
  refine ⟨given.inWholeSeconds, ofWire?_wire hdepth, hworker, hid, ?_⟩
  intro keyspace' queue
  have hcarried : (given.inWholeSeconds.onQueue queue).key = some (job.identify keyspace).1.text :=
    hkey
  rw [identify, hcarried]

/-- Does a job run at a site under its key, and does nothing of the key remain if it succeeds? -/
def Site.Performs (settings : Settings) (worker : String) (k : JobKey) (s : Site) (job : Job) :
    Prop :=
  (job.identify settings.keyspace).1 = k ∧ ∀ measure inside finish (next : Traffic),
    next = .pass .perform job measure inside finish .none → (inside.Passes fun _ job _ ↦
      job.worker = worker ∧ (job.identify settings.keyspace).1 = k) →
        (¬ Overdue (s.wall + next.duration) → ∃ log s', next.journal? settings s = some (log, s')) ∧
          ∀ log s', next.journal? settings s = some (log, s') →
            ∃ before given site within, log = before ++ .handed ⟨.perform, job.id, []⟩ given site ::
              within ++ [.performed ⟨.perform, job.id, []⟩
                (Outcome.ended (finish given).1).performed s'] ∧
              (∀ n ∈ log, Move k (fun _ ↦ True) n) ∧ ((finish given).1 = .ok () →
                ∀ r : Record, s'.store.entries.live? s'.clock (r.name k) = none)

theorem Site.Ready.performs {job : Job} (hs : s.Ready strategy worker k)
    (hlocks : strategy.locks = true) (hworker : job.worker = worker)
    (hkey : (job.identify settings.keyspace).1 = k) (hholder : s.holder? k = some job.id) :
    s.Performs settings worker k job := by
  refine ⟨hkey, ?_⟩
  intro measure inside finish next hnext hinside
  have hpasses : next.Passes fun _ job _ ↦ job.worker = worker ∧
      (job.identify settings.keyspace).1 = k := by
    rw [hnext]
    exact ⟨⟨hworker, hkey⟩, hinside, trivial⟩
  obtain ⟨hends, hhappens⟩ := hs.happens hlocks hpasses
  refine ⟨hends, ?_⟩
  intro log s' hrun
  have hhappens := hhappens log s' hrun
  have hmoves := (hhappens.moves hpasses).forall_mem
  have hsound := hs.sound
  subst hnext
  cases hhappens with
  | barred hquiet hbarred _ =>
    rw [← hquiet.clock, ← hquiet.store] at hsound
    obtain ⟨J, -, hne, hother⟩ := hbarred.exists_holder (M := fun _ ↦ True)
      (Pass.key_ofJob.trans hkey) trivial hsound
    rw [hquiet.holder?, hholder] at hother
    rw [Pass.id_ofJob] at hne
    exact absurd (Option.some.inj hother).symm hne
  | @through _ _ given _ _ _ _ _ held before within after _ _ _ s₂ s₃ _ _ hquiet henters hwithin
      hleaves _ hrest =>
    cases hrest
    rw [← hquiet.clock, ← hquiet.store] at hsound
    have hheld := henters.held_of_perform rfl (Pass.key_ofJob.trans hkey) hsound
    have hs₃ := hwithin.sound (hinside.imp fun _ _ _ h ↦ h.2)
      (henters.sound (Pass.key_ofJob.trans hkey) hsound)
    refine ⟨before, given, s₂, within ++ .finished ⟨.perform, job.id, []⟩ (finish given).1 s₃ ::
      after, ?_, hmoves, ?_⟩
    · simp [Outcome.note]
    · intro hok
      rw [hok] at hleaves
      exact hleaves.clears rfl hheld (Pass.key_ofJob.trans hkey) hs₃

namespace Traffic

/-- An instance that wins the window as it is scheduled, and is sent through the wire to a gate with
a keyspace of its own and on any queue, runs there under its key while the window lasts. If it
succeeds, nothing that was kept under the key remains. -/
theorem handed_over {settings : Settings} {worker : String} {k : JobKey} {job given : Job}
    {measure : String → String → String → Except LsnError Int64} {inside : Traffic}
    {finish : Job → Except String Unit × Job} {earlier first later between : List Note}
    {x : Option Instant} {s s₁ s₂ s₃ site : Site} (hs : s.Calm)
    (hlocks : (s.strategyFor worker).locks = true)
    (hnone : ∀ r : Record, s.store.entries.live? s.clock (r.name k) = Option.none)
    (hearlier : Relay worker k s earlier s₁)
    (ht : (pass .schedule job measure inside finish none).Passes fun _ job _ ↦
      job.worker = worker ∧ (job.identify settings.keyspace).1 = k) (hdepth : job.WithinDepth)
    (hrun : (pass .schedule job measure inside finish none).journal? settings s₁ =
      some (first ++ .handed ⟨.schedule, job.id, []⟩ given site :: later, s₂))
    (hwins : site.store.entries.live? site.clock k.text = some ⟨.text job.id.text, x⟩)
    (hbetween : Relay worker k s₂ between s₃) (hkept : ∀ n ∈ later ++ between, ¬ n.Releases k)
    (hlasts : Entry.isLive ⟨.text job.id.text, x⟩ s₃.clock = true) :
    ∃ parsed, Job.ofWire? given.wire = some parsed ∧ ∀ settings' queue,
      s₃.Performs settings' worker k (parsed.onQueue queue) := by
  have hready : s.Ready (s.strategyFor worker) worker k := ⟨hs, rfl, .of_eq_none hnone⟩
  have hs₁ := hearlier.ready hlocks hready
  have hhappens := (hs₁.happens hlocks ht).2 _ _ hrun
  have hs₂ := hhappens.ready hs₁ ht
  have hs₃ := hbetween.ready hlocks hs₂
  obtain ⟨hlater, hbetween'⟩ := List.forall_mem_append.mp hkept
  -- The window lasts through the rest of the scheduling and through what lies between.
  have hholder : s₃.holder? k = some job.id := by
    obtain ⟨s₄, -, hrest⟩ := (hhappens.moves ht).exists_between
    cases hrest with
    | step _ _ hrest =>
      have hlasts' := Entry.isLive_mono (hbetween.clock_le hlocks hs₂) hlasts
      have hlive := hrest.live?_text hlater hwins hlasts'
      rw [Site.holder?_eq_some_iff]
      exact text?_of_live? (hbetween.live?_holder hlocks hs₂ hbetween' hlive hlasts)
  obtain ⟨⟨hworker, hkey⟩, hinside, -⟩ := ht
  have hgiven := hhappens.given_of_schedule hkey (hinside.imp fun _ _ _ h ↦ h.2)
    (List.mem_append_right _ List.mem_cons_self)
  obtain ⟨parsed, hparsed, hworker', hid, hkey'⟩ := Job.exists_parsed settings.keyspace hdepth
  rw [← hgiven] at hparsed
  refine ⟨parsed, hparsed, ?_⟩
  intro settings' queue
  rw [← hid] at hholder
  exact hs₃.performs hlocks (hworker'.trans hworker) ((hkey' _ queue).trans hkey) hholder

def parcel : Job := Job.new ⟨"a"⟩ "w" []

/-- Another instance is scheduled, with a position that the first one does not have. -/
def parcelAgain : Traffic :=
  through .schedule { parcel with
    id := ⟨"b"⟩
    locations := Dictionary.empty.insert "main" "0/10" } none none

/-- The gate abroad would derive another key for the job if it came without one. -/
theorem handed_over_abroad :
    (parcel.identify "abroad").1 ≠ (parcel.identify Settings.default.keyspace).1 ∧
      ∃ (given parsed : Job) (s : Site), Job.ofWire? given.wire = some parsed ∧
        s.Performs { Settings.default with keyspace := "abroad" } "w"
          (parcel.identify Settings.default.keyspace).1 (parsed.onQueue "low") := by
  refine ⟨by decide +kernel, ?_⟩
  obtain ⟨k, hk⟩ : ∃ k, (parcel.identify Settings.default.keyspace).1 = k := ⟨_, rfl⟩
  have hwon : ((through .schedule parcel none none).journal? .default (shop "until_executing")).map
      (fun r ↦ r.1.map fun n ↦ (n.headline, decide (n.before.store.entries.live? n.before.clock
        (parcel.identify Settings.default.keyspace).1.text =
          some ⟨.text "a", some ⟨1_021_600_000_000_000⟩⟩))) =
        some ([(.called ⟨.schedule, ⟨"a"⟩, []⟩ false, false)] ++
          (.handed ⟨.schedule, ⟨"a"⟩, []⟩, true) ::
            [(.finished ⟨.schedule, ⟨"a"⟩, []⟩ false, true),
              (.scheduled ⟨.schedule, ⟨"a"⟩, []⟩ .passed, true)]) := by
    decide +kernel
  have hthen : (((through .schedule parcel none none).journal? .default
      (shop "until_executing")).bind fun r ↦ (parcelAgain.journal? .default r.2).map fun r' ↦
        ((r.1 ++ r'.1).all fun n ↦ !n.isRelease,
          Entry.isLive ⟨.text "a", some ⟨1_021_600_000_000_000⟩⟩ r'.2.clock)) =
        some (true, true) := by
    decide +kernel
  obtain ⟨first, n, later, s₂, hrun, -, hn, hlater⟩ := exists_note_of_outline hwon
  obtain ⟨hheadline, hlive⟩ := Prod.mk.inj hn
  obtain ⟨given, site, rfl⟩ := Note.exists_handed hheadline
  rw [hrun, Option.bind_some] at hthen
  obtain ⟨⟨between, s₃⟩, hrun', hthen⟩ := Option.map_eq_some_iff.mp hthen
  obtain ⟨hreleases, hlasts⟩ := Prod.mk.inj hthen
  have hleg : Relay "w" k s₂ (between ++ []) s₃ :=
    .leg (t := parcelAgain) (.refl _) ⟨⟨rfl, hk⟩, trivial, trivial⟩ hrun' (.done (.refl _))
  have hkept : ∀ n ∈ later ++ (between ++ []), ¬ n.Releases k := by
    intro n hn
    have hnone := List.all_eq_true.mp hreleases n (by
      simp only [List.mem_append, List.mem_cons, List.append_nil] at hn ⊢
      tauto)
    exact Note.not_releases_of_isRelease (by simpa using hnone)
  have hpasses : (through .schedule parcel none none).Passes fun _ job _ ↦ job.worker = "w" ∧
      (job.identify Settings.default.keyspace).1 = k := ⟨⟨rfl, hk⟩, trivial, trivial⟩
  have hdepth : parcel.WithinDepth := by simp [Job.WithinDepth, parcel, Job.new]
  have hwins := of_decide_eq_true hlive
  rw [hk] at hwins ⊢
  obtain ⟨parsed, hparsed, hperforms⟩ := handed_over (s := shop "until_executing") ⟨rfl, rfl⟩ rfl
    (fun _ ↦ rfl) (.done (.refl _)) hpasses hdepth hrun hwins hleg hkept hlasts
  exact ⟨given, parsed, s₃, hparsed, hperforms _ _⟩

end Traffic

end UniqueJobs
