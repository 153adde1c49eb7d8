import UniqueJobs.Proofs.Journal.Place
import UniqueJobs.Proofs.Journal.Remain
import UniqueJobs.Proofs.Traffic.Ownership

/-!
How long a running job is covered, under the strategy that holds the window until a job has run. The
check of a performance leaves a window that is free to the instance for the time that it asks for,
and a window of its own as it is. Main statement: `Traffic.running_covered`; in the run of
`Traffic.not_coversInFull` the window that is found ends first.
-/

namespace UniqueJobs

open Entries

/-- Does an instance that is to be performed ask for the window for a time and find it its own? -/
def Note.findsOwn (k : JobKey) (J : JobId) (window : Duration) : Note → Bool
  | .called caller (.batch requests) none _ after => caller.stage = .perform && caller.id = J &&
    .setIfAbsent k.text J.text window ∈ requests && after.holder? k = some J
  | _ => false

theorem Claimant.eq_of_mem_claimRequests {c : Claimant} {J : JobId} {window asked : Duration}
    (h : .setIfAbsent c.key.text J.text window ∈ c.claimRequests asked) :
    c.id = J ∧ asked = window := by
  obtain ⟨text⟩ := J
  simp only [claimRequests, claimWrites, claimReads, List.mem_append, List.mem_cons, List.mem_map,
    Request.setIfAbsent.injEq, true_and] at h
  rcases h with ((⟨rfl, rfl⟩ | ⟨e, -, hname, -⟩) | hnames) | (hget | ⟨config, -, hget⟩)
  · exact ⟨rfl, rfl⟩
  · have hne : Record.baseline e.1 ≠ .holder := by simp
    exact absurd hname (Record.name_ne c.key hne)
  · split at hnames <;> simp at hnames
  · cases hget
  · cases hget

section

variable {settings : Settings} {k : JobKey} {M : Measures} {J : JobId} {window : Duration}
  {n : Note} {s s' : Site} {notes : List Note}

theorem Contact.live?_claim (c : Claimant) (window : Duration) (now : Instant) (es : Entries) :
    live? now c.key.text ((Contact.claim window).effect c now es) =
      some ((es.live? now c.key.text).getD ⟨.text c.id.text, deadline now window⟩) := by
  cases hlive : es.live? now c.key.text with
  | none => exact live?_claim_of_offered window (r := .holder) hlive rfl
  | some e => exact live?_claim_of_live window (r := .holder) (by simp) hlive

theorem Note.findsOwn_called {caller : Caller} {requests : List Request}
    {failure : Option StoreError} {before after : Site}
    (h : (Note.called caller (.batch requests) failure before after).findsOwn k J window = true) :
    .setIfAbsent k.text J.text window ∈ requests ∧ after.holder? k = some J := by
  cases failure with
  | some e => cases h
  | none =>
    simp only [findsOwn, Bool.and_eq_true, decide_eq_true_eq] at h
    exact ⟨h.1.2, h.2⟩

/-- The record that such a check leaves is the one that it finds, or else a new one for the time
that is asked for. -/
theorem Move.exists_live? (hn : Move k M n) (h : n.findsOwn k J window = true) :
    ∃ x, (n.before.store.entries.live? n.before.clock k.text).getD
        ⟨.text J.text, deadline n.before.clock window⟩ = ⟨.text J.text, x⟩ ∧
      n.after.store.entries.live? n.after.clock k.text = some ⟨.text J.text, x⟩ := by
  cases hn with
  | mark hmark =>
    cases n with
    | called => cases hmark
    | handed | finished | scheduled | performed | waited => cases h
  | wait | release => cases h
  | touch htouch =>
    cases htouch with
    | @intro c contact s hkey _ _ =>
      subst hkey
      cases contact with
      | advance | setFlag | readFlag | release => cases h
      | readLatest =>
        obtain ⟨hmem, -⟩ := Note.findsOwn_called h
        obtain ⟨config, -, hread⟩ := List.mem_map.mp hmem
        cases hread
      | claim asked =>
        obtain ⟨hmem, hholder⟩ := Note.findsOwn_called h
        obtain ⟨rfl, rfl⟩ := Claimant.eq_of_mem_claimRequests hmem
        obtain ⟨x, hlive⟩ := exists_live?_of_text? (Site.holder?_eq_some_iff.mp hholder)
        have hleft := Contact.live?_claim c asked s.clock s.store.entries
        exact ⟨x, Option.some.inj (hleft.symm.trans hlive), hlive⟩

end

/-- Is the record that a check has left there as long as it lasts and nothing is released, wherever
the notes after the check lead? -/
def Note.Covers (k : JobKey) (e : Entry) (check : Note) (rest : List Note) : Prop :=
  ∀ span late, rest = span ++ late → (∀ n ∈ span, ¬ n.Releases k) →
    ∀ u : Instant, (check.after.past span).clock.nanos ≤ u.nanos → e.isLive u = true →
      (check.after.past span).store.entries.live? u k.text = some e

/-- Is no other instance performed in that time? -/
def Excludes (k : JobKey) (J : JobId) (e : Entry) (rest : List Note) : Prop :=
  ∀ span other job site late, rest = span ++ .handed other job site :: late →
    (∀ n ∈ span, ¬ n.Releases k) → other.stage = .perform → e.isLive site.clock = true →
      other.id = J

theorem Pass.Enters.holder?_of_perform {k : JobKey} {p : Pass} {held : Bool} {given : Job}
    {s s' : Site} {notes : List Note} (h : p.Enters s held notes given s')
    (hstage : p.caller.stage = .perform) (hstrategy : p.strategy = .untilExecuting)
    (hkey : p.claimant.key = k) (hs : Sound k s.clock s.store.entries) :
    s'.holder? k = some p.claimant.id := by
  cases h with
  | bypass hschedule => cases hstage.symm.trans hschedule
  | unasked _ hcleared => cases hstrategy.symm.trans hcleared
  | unanswered _ _ hread _ hsound =>
    rw [hkey] at hsound
    exact absurd (hread.sound hkey hs) hsound
  | own _ _ hclaims => exact (hclaims.holder?_eq (M := fun _ ↦ True) hkey trivial).1

section

variable {settings : Settings} {k : JobKey} {M : Measures} {J : JobId} {window : Duration}
  {s s' : Site} {notes : List Note}

/-- An instance that is performed then holds the window when it is handed over. -/
theorem Happens.holder?_of_handed {t : Traffic} {place : List Bool}
    (h : Happens settings .untilExecuting t place s notes s')
    (ht : t.Passes fun _ job _ ↦ (job.identify settings.keyspace).1 = k)
    (hs : Sound k s.clock s.store.entries) {caller : Caller} {handed : Job} {site : Site}
    (hn : .handed caller handed site ∈ notes) (hstage : caller.stage = .perform) :
    site.holder? k = some caller.id := by
  obtain ⟨job, measure, held, first, before, rest, s₁, hkey, hid, -, hfirst, henters⟩ :=
    h.exists_enters (M := fun _ ↦ True) ht (fun _ _ _ hkey ↦ ⟨hkey, trivial⟩) hn
  rw [henters.holder?_of_perform hstage rfl (Pass.key_ofJob.trans hkey) (hfirst.sound hs),
    Pass.id_ofJob, hid]

end

structure Sighting where
  headline : Headline
  own : Bool
  clock : Nat
  free : Bool
  deriving DecidableEq

def Note.sighting (k : JobKey) (J : JobId) (window : Duration) (n : Note) : Sighting where
  headline := n.headline
  own := n.findsOwn k J window
  clock := n.before.clock.nanos
  free := (n.before.store.entries.live? n.before.clock k.text).isNone

namespace Traffic

/-- Who is performed and finds the window to be its own holds it from then on until the record that
the check has left expires or the key is released, and no other instance is performed meanwhile. If
the window was free, that record lasts for all the time that was asked for; if it was the instance's
already, it is the older record. -/
theorem running_covered {settings : Settings} {worker : String} {k : JobKey} (t : Traffic)
    {s : Site} (ht : t.Passes fun _ job _ ↦ job.worker = worker ∧
      (job.identify settings.keyspace).1 = k) (hs : s.Calm)
    (hstrategy : s.strategyFor worker = .untilExecuting) :
    (¬ Overdue (s.wall + t.duration) → ∃ log s', t.journal? settings s = some (log, s')) ∧
      ∀ log s', t.journal? settings s = some (log, s') → ∀ first check rest J window,
        log = first ++ check :: rest → check.findsOwn k J window = true →
          ∃ x, (check.before.store.entries.live? check.before.clock k.text).getD
              ⟨.text J.text, deadline check.before.clock window⟩ = ⟨.text J.text, x⟩ ∧
            (check.before.store.entries.live? check.before.clock k.text = Option.none →
              ∀ u : Instant, u.nanos < check.before.clock.nanos + window.nanos →
                Entry.isLive ⟨.text J.text, x⟩ u = true) ∧
            check.Covers k ⟨.text J.text, x⟩ rest ∧
            (Sound k s.clock s.store.entries → Excludes k J ⟨.text J.text, x⟩ rest) := by
  obtain ⟨hends, hhappens⟩ := t.happens_under settings (ht.imp fun _ _ _ h ↦ h.1) hs hstrategy rfl
  refine ⟨hends, ?_⟩
  intro log s' hrun first check rest J window hlog hcheck
  have hhappens := hhappens log s' hrun
  have hchain := hhappens.chain (M := fun _ ↦ True) (ht.imp fun _ _ _ h ↦ ⟨h.2, trivial⟩)
  rw [hlog] at hchain
  obtain ⟨s₁, -, hlast⟩ := (hchain.imp fun _ hn ↦ hn.1).exists_between
  cases hlast with
  | step _ hmove hrest =>
    obtain ⟨x, hleft, hlive⟩ := hmove.exists_live? hcheck
    have hcovers : check.Covers k ⟨.text J.text, x⟩ rest := by
      rintro span late rfl hreleases u hu hx
      obtain ⟨s₂, hspan, -⟩ := hrest.exists_between
      exact hspan.live?_past hreleases hlive hu hx
    refine ⟨x, hleft, ?_, hcovers, ?_⟩
    · intro hfree u hu
      rw [hfree, Option.getD_none] at hleft
      rw [← hleft]
      exact isLive_deadline (by omega)
    · rintro hsound span other job site late rfl hreleases hstage hx
      have hhanded : .handed other job site ∈ log := by simp [hlog]
      have hown := hhappens.holder?_of_handed (ht.imp fun _ _ _ h ↦ h.2) hsound hhanded hstage
      obtain ⟨s₂, hspan, hlate⟩ := hrest.exists_between
      cases hlate with
      | step hstill _ _ =>
        -- The site of the note is the one that the span has led to.
        have hpast := hspan.still_past.trans hstill
        have hclock : site.clock = (check.after.past span).clock := hpast.clock
        have hstore : site.store = (check.after.past span).store := hpast.store
        have hheld := hcovers span _ rfl hreleases site.clock
          (Nat.le_of_eq (congrArg _ hclock.symm)) hx
        rw [← hstore] at hheld
        have hJ := Site.holder?_eq_some_iff.mpr (text?_of_live? hheld)
        exact Option.some.inj (hown.symm.trans hJ)

/-- While one instance is performed, the clock goes on and another one is to be performed. -/
def guarded : Traffic :=
  through .perform (pieceOfWork "a")
    (wait (.ofSecs 2000) <| through .perform (pieceOfWork "b") none none) none

theorem passes_guarded : guarded.Passes fun _ job _ ↦ job.worker = "w" ∧
    (job.identify Settings.default.keyspace).1 = ⟨"k"⟩ :=
  ⟨⟨rfl, rfl⟩, ⟨⟨rfl, rfl⟩, trivial, trivial⟩, trivial⟩

theorem running_covered_guarded :
    ∃ check rest s', guarded.journal? .default (shop "until_executing") = some (check :: rest, s') ∧
      check.findsOwn ⟨"k"⟩ ⟨"a"⟩ Settings.default.window = true ∧
      .performed ⟨.perform, ⟨"b"⟩, [true]⟩ (.barred ⟨"a"⟩) ∈ rest.map Note.headline ∧
      check.Covers ⟨"k"⟩ ⟨.text "a", deadline check.before.clock Settings.default.window⟩ rest ∧
      Excludes ⟨"k"⟩ ⟨"a"⟩ ⟨.text "a", deadline check.before.clock Settings.default.window⟩
        rest := by
  have hrun : (guarded.journal? .default (shop "until_executing")).map
      (fun r ↦ r.1.map (Note.sighting ⟨"k"⟩ ⟨"a"⟩ Settings.default.window)) =
        some ([] ++ ⟨.called ⟨.perform, ⟨"a"⟩, []⟩ false, true, 1_000_000_000_000_000, true⟩ ::
          [⟨.handed ⟨.perform, ⟨"a"⟩, []⟩, false, 1_000_000_000_000_000, false⟩,
            ⟨.waited, false, 1_000_000_000_000_000, false⟩,
            ⟨.called ⟨.perform, ⟨"b"⟩, [true]⟩ false, false, 1_002_000_000_000_000, false⟩,
            ⟨.performed ⟨.perform, ⟨"b"⟩, [true]⟩ (.barred ⟨"a"⟩), false, 1_002_000_000_000_000,
              false⟩,
            ⟨.finished ⟨.perform, ⟨"a"⟩, []⟩ false, false, 1_002_000_000_000_000, false⟩,
            ⟨.called ⟨.perform, ⟨"a"⟩, []⟩ false, false, 1_002_000_000_000_000, false⟩,
            ⟨.performed ⟨.perform, ⟨"a"⟩, []⟩ .passed, false, 1_002_000_000_000_000, true⟩]) := by
    decide +kernel
  obtain ⟨first, check, rest, s', hjournal, hfirst, hcheck, hrest⟩ := exists_note_of_outline hrun
  obtain rfl := List.map_eq_nil_iff.mp hfirst
  have hown := congrArg Sighting.own hcheck
  have hfree := Option.isNone_iff_eq_none.mp (congrArg Sighting.free hcheck)
  obtain ⟨x, hleft, -, hcovers, hexcludes⟩ := (running_covered guarded passes_guarded ⟨rfl, rfl⟩
    rfl).2 _ s' hjournal [] check rest ⟨"a"⟩ Settings.default.window rfl hown
  rw [hfree, Option.getD_none] at hleft
  obtain ⟨-, rfl⟩ := Entry.mk.inj hleft
  refine ⟨check, rest, s', hjournal, hown, ?_, hcovers, hexcludes (.empty _ _)⟩
  have hheadlines := congrArg (List.map Sighting.headline) hrest
  rw [List.map_map] at hheadlines
  change rest.map Note.headline = _ at hheadlines
  simp [hheadlines]

/-- Does every check of a performance that finds the window its own cover it for the time that it
asks for? -/
def CoversInFull (k : JobKey) (log : List Note) : Prop :=
  ∀ first check span n late J window, log = first ++ check :: (span ++ n :: late) →
    check.findsOwn k J window = true → (∀ m ∈ span, ¬ m.Releases k) →
      n.before.clock.nanos < check.before.clock.nanos + window.nanos → n.before.holder? k = some J

/-- An instance waits in the queue for most of the time of its window, and then it runs for longer
than what is left. -/
def queued : Traffic :=
  through .schedule (pieceOfWork "a") none (wait (.ofSecs 20_000) guarded)

/-- The window ends while the instance runs, and the other one is performed too. -/
theorem not_coversInFull :
    (queued.Passes fun _ job _ ↦ job.worker = "w" ∧
      (job.identify Settings.default.keyspace).1 = ⟨"k"⟩) ∧ (shop "until_executing").Calm ∧
      (shop "until_executing").strategyFor "w" = .untilExecuting ∧
      ∃ log s', queued.journal? .default (shop "until_executing") = some (log, s') ∧
        ¬ CoversInFull ⟨"k"⟩ log := by
  refine ⟨⟨⟨rfl, rfl⟩, trivial, passes_guarded⟩, ⟨rfl, rfl⟩, rfl, ?_⟩
  have hrun : (queued.journal? .default (shop "until_executing")).map
      (fun r ↦ ((r.1.drop 5).take 4).map (Note.sighting ⟨"k"⟩ ⟨"a"⟩ Settings.default.window)) =
        some [⟨.called ⟨.perform, ⟨"a"⟩, [false]⟩ false, true, 1_020_000_000_000_000, false⟩,
          ⟨.handed ⟨.perform, ⟨"a"⟩, [false]⟩, false, 1_020_000_000_000_000, false⟩,
          ⟨.waited, false, 1_020_000_000_000_000, false⟩,
          ⟨.called ⟨.perform, ⟨"b"⟩, [true, false]⟩ false, false, 1_022_000_000_000_000, true⟩] := by
    decide +kernel
  obtain ⟨⟨log, s'⟩, hjournal, hlog⟩ := Option.map_eq_some_iff.mp hrun
  refine ⟨log, s', hjournal, ?_⟩
  intro hcovers
  -- The check, two notes that release nothing, and the note at which the window is free again.
  obtain ⟨check, more, hsplit, hcheck, hmore⟩ := List.map_eq_cons_iff.mp hlog
  obtain ⟨handed, more, rfl, hhanded, hmore⟩ := List.map_eq_cons_iff.mp hmore
  obtain ⟨waited, more, rfl, hwaited, hmore⟩ := List.map_eq_cons_iff.mp hmore
  obtain ⟨n, more, rfl, hn, hmore⟩ := List.map_eq_cons_iff.mp hmore
  obtain rfl := List.map_eq_nil_iff.mp hmore
  have hfirst := (List.take_append_drop 5 log).symm
  rw [← List.take_append_drop 4 (log.drop 5), hsplit] at hfirst
  have hkept : ∀ m ∈ [handed, waited], ¬ m.Releases ⟨"k"⟩ := by
    have h₁ : handed.headline = _ := congrArg Sighting.headline hhanded
    have h₂ : waited.headline = _ := congrArg Sighting.headline hwaited
    simp [Note.not_releases_of_headline, h₁, h₂, Headline.isCall]
  have hcheckClock : check.before.clock.nanos = 1_020_000_000_000_000 :=
    congrArg Sighting.clock hcheck
  have hnClock : n.before.clock.nanos = 1_022_000_000_000_000 := congrArg Sighting.clock hn
  have hwindow : Settings.default.window.nanos = 21_600_000_000_000 := by decide
  have hholder := hcovers (log.take 5) check [handed, waited] n _ ⟨"a"⟩ Settings.default.window
    hfirst (congrArg Sighting.own hcheck) hkept (by omega)
  have hfree := Option.isNone_iff_eq_none.mp (congrArg Sighting.free hn)
  rw [Site.holder?_of_live?_eq_none hfree] at hholder
  cases hholder

end Traffic

end UniqueJobs
