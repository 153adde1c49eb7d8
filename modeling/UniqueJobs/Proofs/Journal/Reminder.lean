import UniqueJobs.Proofs.Journal.Flag

/-!
What the flag says of the instances that were dropped. It is found up to its own expiry after a drop,
and only after a drop. Main statement: `Traffic.flag_follows_drops`; in the runs of
`Traffic.not_keepsPace` it expires before the window under which the instance was dropped, or
outlives it.
-/

namespace UniqueJobs

open Entries

/-- What a claimant whose job may run again is told of the flag at a site. -/
def Site.Finds (k : JobKey) (flagged : Bool) (s : Site) : Prop :=
  ∀ c : Claimant, c.key = k → c.runsAgain = true →
    ∃ s', (c.flagged (Site.recordStore (m := Option))).run s = some (.ok flagged, s')

variable {settings : Settings} {strategy : Strategy} {k : JobKey} {M : Measures} {caller : Caller}
  {n : Note} {s s' : Site} {notes more : List Note} {e : Entry} {worker : String}

theorem Site.Calm.finds (h : s.Calm) (hs : Sound k s.clock s.store.entries) :
    s.Finds k (s.flag? k).isSome := by
  rintro c rfl hagain
  obtain ⟨v, hv, hsome⟩ := hs.getText_flag
  have hrun := (Site.run_recordStore_get (m := Option) c.key.flag s).trans
    (congrArg some (h.call .get _))
  refine ⟨s.keeping (getText s.clock c.key.flag s.store.entries).2, ?_⟩
  rw [Claimant.flagged, if_pos hagain, StateT.run_bind, hrun, hv, ← hsome]
  rfl

/-- What the flag says along a journal of the traffic that begins at a site. -/
structure Reminds (settings : Settings) (k : JobKey) (t : Traffic) (s : Site) (log : List Note) :
    Prop where
  /-- A drop leaves a flag, for as long as the instance that is dropped would hold the window or from
  an earlier drop, which is found from then on until it expires or is released. -/
  after_drop : ∀ first caller J site rest,
    log = first ++ .scheduled caller (.ok (.dropped J)) site :: rest →
      ∃ early ttl failure before after v x, first = early ++
          [.called caller (.setIfAbsent k.flag "1" ttl) failure before after] ∧
        OwnWindow settings (t.arrivals []) caller before ttl ∧
        (before.flag? k).getD ⟨.text "1", deadline before.clock ttl⟩ = ⟨.text v, x⟩ ∧
        ∀ span late, rest = span ++ late → (∀ n ∈ span, ¬ n.Releases k) → ∀ d,
          Entry.isLive ⟨.text v, x⟩ ((site.past span).advance d).clock = true →
            ((site.past span).advance d).Finds k true
  /-- Where there is no flag, none is found before an instance is dropped. -/
  only_after_drop : ∀ first span late, log = first ++ span ++ late →
    (s.past first).flag? k = none → ¬ Since k Note.Drops span → (∀ n ∈ late.head?, ¬ n.Drops) →
      ∀ d, ((s.past (first ++ span)).advance d).Finds k false

theorem Chain.finds (h : Chain (Move k M) s notes s') (hcalm : s.Calm)
    (hs : Sound k s.clock s.store.entries) (d : Duration) :
    ((s.past notes).advance d).Finds k (((s.past notes).advance d).flag? k).isSome := by
  obtain ⟨e, hlater⟩ := h.exists_later_past d
  exact (hlater.calm hcalm).finds (h.sound_past hs d)

theorem Chain.finds_true {v : String} {x : Option Instant} (h : Chain (Move k M) s notes s')
    (hcalm : s.Calm) (hs : Sound k s.clock s.store.entries)
    (hreleases : ∀ n ∈ notes, ¬ n.Releases k) (hflag : s.flag? k = some ⟨.text v, x⟩) {d : Duration}
    (hx : Entry.isLive ⟨.text v, x⟩ ((s.past notes).advance d).clock = true) :
    ((s.past notes).advance d).Finds k true := by
  have hfinds := h.finds hcalm hs d
  have hfound : ((s.past notes).advance d).flag? k = some ⟨.text v, x⟩ :=
    h.live?_past hreleases hflag (Nat.le_add_right _ _) hx
  rwa [hfound] at hfinds

theorem Chain.finds_false (h : Chain (Move k M) s notes s') (hcalm : s.Calm)
    (hs : Sound k s.clock s.store.entries) (hnone : s'.flag? k = none) (d : Duration) :
    ((s.past notes).advance d).Finds k false := by
  have hfinds := h.finds hcalm hs d
  have hle : (s.past notes).clock.nanos ≤ ((s.past notes).advance d).clock.nanos :=
    Nat.le_add_right _ _
  have hpast : (s.past notes).store.entries.live? (s.past notes).clock k.flag = none :=
    (h.still_past.flag? k).symm.trans hnone
  have hlater : ((s.past notes).advance d).flag? k = none := by
    have hfilter := live?_of_le hle k.flag (s.past notes).store.entries
    rw [hpast] at hfilter
    exact hfilter
  rwa [hlater] at hfinds

theorem Chain.reminds {t : Traffic} (h : Chain (Move k M) s notes s')
    (hflagging : Flagging k (OwnWindow settings (t.arrivals [])) notes) (hcalm : s.Calm)
    (hs : Sound k s.clock s.store.entries) : Reminds settings k t s notes where
  after_drop := by
    rintro first caller J site rest rfl
    obtain ⟨early, ttl, failure, before, after, hearly, hown, hsite, s₁, hfirst, hstill, hrest⟩ :=
      h.exists_flag_of_drop hflagging
    have hs₁ := hfirst.sound hs
    rw [← hstill.clock, ← hstill.store] at hs₁
    obtain ⟨v, hv⟩ := hs₁.exists_flag hsite
    refine ⟨early, ttl, failure, before, after, v, _, hearly, hown, by rw [← hv], ?_⟩
    rintro span late rfl hreleases d hx
    obtain ⟨s₂, hspan, -⟩ := hrest.exists_between
    exact hspan.finds_true (hstill.like.calm (hfirst.calm hcalm)) hs₁ hreleases
      (hsite.trans (by rw [← hv])) hx
  only_after_drop := by
    rintro first span late rfl hnone hsince hlate d
    obtain ⟨s₂, hup, -⟩ := h.exists_between
    obtain ⟨s₁, hfirst, hspan⟩ := hup.exists_between
    apply hup.finds_false hcalm hs
    rw [← hfirst.still_past.flag?] at hnone
    cases hflag : s₂.flag? k with
    | none => rfl
    | some e =>
      rcases hspan.flag?_cases (hfirst.sound hs) hflag with ⟨hold, -⟩ | hset
      · cases hnone.symm.trans hold
      · rcases hflagging.exists_drop_of_since (fun _ h ↦ h.1) hset with hdrop | ⟨n, hn, hdrop⟩
        · exact absurd hdrop hsince
        · exact absurd hdrop (hlate n hn)

/-- Is the flag found after a drop as long as the record of the key is still the same one? -/
def FlagLasts (k : JobKey) (log : List Note) : Prop :=
  ∀ first caller J site span n late e,
    log = first ++ .scheduled caller (.ok (.dropped J)) site :: (span ++ n :: late) →
      site.store.entries.live? site.clock k.text = some e → (∀ m ∈ span, ¬ m.Releases k) →
        n.before.store.entries.live? n.before.clock k.text = some e →
          (n.before.flag? k).isSome = true

/-- Is the flag found only if an instance was dropped since the record of the key was made? -/
def FlagIsFresh (k : JobKey) (log : List Note) : Prop :=
  ∀ first made span n late e, log = first ++ made :: (span ++ n :: late) →
    made.before.store.entries.live? made.before.clock k.text ≠ some e →
      made.after.store.entries.live? made.after.clock k.text = some e →
        (∀ m ∈ span, ¬ m.Releases k) →
          n.before.store.entries.live? n.before.clock k.text = some e →
            (n.before.flag? k).isSome = true → ∃ m ∈ span ++ [n], m.Drops

structure Glance where
  headline : Headline
  flagged : Bool
  stands : Bool
  stays : Bool
  deriving DecidableEq

def Note.glance (k : JobKey) (e : Entry) (n : Note) : Glance where
  headline := n.headline
  flagged := (n.before.flag? k).isSome
  stands := n.before.store.entries.live? n.before.clock k.text = some e
  stays := n.after.store.entries.live? n.after.clock k.text = some e

namespace Traffic

/-- The flag follows the drops: a drop leaves one, for as long as the instance that is dropped would
hold the window, which is found until it expires or is released, and none is found without a drop. -/
theorem flag_follows_drops {settings : Settings} {worker : String} {k : JobKey} (t : Traffic)
    {s : Site} (ht : t.Passes fun _ job _ ↦ job.worker = worker ∧
      (job.identify settings.keyspace).1 = k) (hs : s.Calm)
    (hsound : Sound k s.clock s.store.entries)
    (hstrategy : s.strategyFor worker = .untilExecuted) (hagain : s.RunsAgain worker) :
    (¬ Overdue (s.wall + t.duration) → ∃ log s', t.journal? settings s = some (log, s')) ∧
      ∀ log s', t.journal? settings s = some (log, s') → Reminds settings k t s log := by
  obtain ⟨hends, hhappens⟩ := t.happens_under settings (ht.imp fun _ _ _ h ↦ h.1) hs hstrategy rfl
  refine ⟨hends, ?_⟩
  intro log s' hrun
  have hhappens := hhappens log s' hrun
  have hchain := hhappens.chain (M := fun _ ↦ True) (ht.imp fun _ _ _ h ↦ ⟨h.2, trivial⟩)
  exact (hchain.imp fun _ hn ↦ hn.1).reminds
    (hhappens.flagging ht hagain (List.Subset.refl _)) hs hsound

def missed : Traffic :=
  through .schedule (pieceOfWork "a") none <| through .schedule (pieceOfWork "b") none <|
    wait (.ofSecs 3600) none

theorem flag_follows_drops_missed :
    ∃ log s' caller, missed.journal? .default (shopWith patient) = some (log, s') ∧
      .scheduled caller (.barred ⟨"a"⟩) ∈ log.map Note.headline ∧
      Reminds .default ⟨"k"⟩ missed (shopWith patient) log := by
  have hrun : (missed.journal? .default (shopWith patient)).map (fun r ↦ r.1.map Note.headline) =
      some ([.called ⟨.schedule, ⟨"a"⟩, []⟩ false, .handed ⟨.schedule, ⟨"a"⟩, []⟩,
        .finished ⟨.schedule, ⟨"a"⟩, []⟩ false, .scheduled ⟨.schedule, ⟨"a"⟩, []⟩ .passed,
        .called ⟨.schedule, ⟨"b"⟩, [false]⟩ false, .called ⟨.schedule, ⟨"b"⟩, [false]⟩ false] ++
        .scheduled ⟨.schedule, ⟨"b"⟩, [false]⟩ (.barred ⟨"a"⟩) :: [.waited]) := by
    decide +kernel
  obtain ⟨first, n, rest, s', hjournal, -, hn, -⟩ := exists_note_of_outline hrun
  have hpasses : missed.Passes fun _ job _ ↦ job.worker = "w" ∧
      (job.identify Settings.default.keyspace).1 = ⟨"k"⟩ :=
    ⟨⟨rfl, rfl⟩, trivial, ⟨rfl, rfl⟩, trivial, trivial⟩
  refine ⟨_, s', ⟨.schedule, ⟨"b"⟩, [false]⟩, hjournal, by simp [hn], ?_⟩
  have hagain : (shopWith patient).RunsAgain "w" := rfl
  exact (flag_follows_drops missed hpasses ⟨rfl, rfl⟩ (.empty _ _) rfl hagain).2 _ s' hjournal

/-- An instance is put off by ten hours, another one is dropped, and six hours later the first one is
performed. -/
def putOff : Traffic :=
  let late := { pieceOfWork "a" with runAt := Timestamp.ofSecs? 1_700_036_000 }
  through .schedule late none <| through .schedule (pieceOfWork "b") none <|
    wait (.ofSecs 21_600) <| through .perform late none none

/-- The window of an instance ends without a release, after another one was dropped, and then a
third one claims it. -/
def renewed : Traffic :=
  through .schedule (pieceOfWork "a") none <| wait (.ofSecs 3600) <|
    through .schedule (pieceOfWork "b") none <| wait (.ofSecs 18_000) <|
      through .schedule (pieceOfWork "c") none <| through .perform (pieceOfWork "c") none none

/-- Does traffic of a worker whose jobs run again lead to such a journal at a site with no entries? -/
def Arises (t : Traffic) (s : Site) (P : List Note → Prop) : Prop :=
  (t.Passes fun _ job _ ↦ job.worker = "w" ∧
    (job.identify Settings.default.keyspace).1 = ⟨"k"⟩) ∧ s.Calm ∧ s.store.entries = .empty ∧
    s.strategyFor "w" = .untilExecuted ∧ s.RunsAgain "w" ∧
    ∃ log s', t.journal? .default s = some (log, s') ∧ P log

theorem arises_putOff :
    putOff.Arises (shopWith patient.includingScheduled) fun log ↦ ¬ FlagLasts ⟨"k"⟩ log := by
  let e : Entry := ⟨.text "a", some ⟨1_057_600_000_000_000⟩⟩
  have hrun : (putOff.journal? .default (shopWith patient.includingScheduled)).map
      (fun r ↦ ((r.1.drop 6).take 3).map (Note.glance ⟨"k"⟩ e)) =
        some [⟨.scheduled ⟨.schedule, ⟨"b"⟩, [false]⟩ (.barred ⟨"a"⟩), true, true, true⟩,
          ⟨.waited, true, true, true⟩,
          ⟨.handed ⟨.perform, ⟨"a"⟩, [false, false]⟩, false, true, true⟩] := by
    decide +kernel
  obtain ⟨⟨log, s'⟩, hjournal, hlog⟩ := Option.map_eq_some_iff.mp hrun
  refine ⟨⟨⟨rfl, rfl⟩, trivial, ⟨rfl, rfl⟩, trivial, ⟨rfl, rfl⟩, trivial, trivial⟩, ⟨rfl, rfl⟩, rfl,
    rfl, rfl, log, s', hjournal, ?_⟩
  intro hlasts
  -- The drop, a time of waiting, and the note at which the flag is gone.
  obtain ⟨drop, more, hsplit, hdrop, hmore⟩ := List.map_eq_cons_iff.mp hlog
  obtain ⟨waited, more, rfl, hwaited, hmore⟩ := List.map_eq_cons_iff.mp hmore
  obtain ⟨n, more, rfl, hn, hmore⟩ := List.map_eq_cons_iff.mp hmore
  obtain rfl := List.map_eq_nil_iff.mp hmore
  have hfirst := (List.take_append_drop 6 log).symm
  rw [← List.take_append_drop 3 (log.drop 6), hsplit] at hfirst
  obtain ⟨site, rfl⟩ := Note.eq_dropped (congrArg Glance.headline hdrop)
  have hkept : ∀ m ∈ [waited], ¬ m.Releases ⟨"k"⟩ := by
    have hheadline : waited.headline = .waited := congrArg Glance.headline hwaited
    simp [Note.not_releases_of_headline, hheadline, Headline.isCall]
  have hflag := hlasts _ _ _ site [waited] n _ e hfirst
    (of_decide_eq_true (congrArg Glance.stands hdrop)) hkept
    (of_decide_eq_true (congrArg Glance.stands hn))
  cases hflag.symm.trans (congrArg Glance.flagged hn)

theorem arises_renewed :
    renewed.Arises (shopWith patient) fun log ↦ ¬ FlagIsFresh ⟨"k"⟩ log := by
  let e : Entry := ⟨.text "c", some ⟨1_043_200_000_000_000⟩⟩
  have hrun : (renewed.journal? .default (shopWith patient)).map
      (fun r ↦ ((r.1.drop 9).take 2).map (Note.glance ⟨"k"⟩ e)) =
        some [⟨.called ⟨.schedule, ⟨"c"⟩, [false, false]⟩ false, true, false, true⟩,
          ⟨.handed ⟨.schedule, ⟨"c"⟩, [false, false]⟩, true, true, true⟩] := by
    decide +kernel
  obtain ⟨⟨log, s'⟩, hjournal, hlog⟩ := Option.map_eq_some_iff.mp hrun
  refine ⟨⟨⟨rfl, rfl⟩, trivial, ⟨rfl, rfl⟩, trivial, ⟨rfl, rfl⟩, trivial, ⟨rfl, rfl⟩, trivial,
    trivial⟩, ⟨rfl, rfl⟩, rfl, rfl, rfl, log, s', hjournal, ?_⟩
  intro hfresh
  -- The call that makes the record, and the next note, at which the flag is an older one.
  obtain ⟨made, more, hsplit, hmade, hmore⟩ := List.map_eq_cons_iff.mp hlog
  obtain ⟨n, more, rfl, hn, hmore⟩ := List.map_eq_cons_iff.mp hmore
  obtain rfl := List.map_eq_nil_iff.mp hmore
  have hfirst := (List.take_append_drop 9 log).symm
  rw [← List.take_append_drop 2 (log.drop 9), hsplit] at hfirst
  obtain ⟨m, hm, hdrop⟩ := hfresh _ made [] n _ e hfirst
    (of_decide_eq_false (congrArg Glance.stands hmade))
    (of_decide_eq_true (congrArg Glance.stays hmade)) (by simp)
    (of_decide_eq_true (congrArg Glance.stands hn)) (congrArg Glance.flagged hn)
  obtain rfl : m = n := List.mem_singleton.mp hm
  obtain ⟨_, _, _, rfl⟩ := hdrop
  cases congrArg Glance.headline hn

/-- The flag expires before the window under which the instance was dropped, or outlives it. -/
theorem not_keepsPace :
    (putOff.Arises (shopWith patient.includingScheduled) fun log ↦ ¬ FlagLasts ⟨"k"⟩ log) ∧
      renewed.Arises (shopWith patient) fun log ↦ ¬ FlagIsFresh ⟨"k"⟩ log :=
  ⟨arises_putOff, arises_renewed⟩

end Traffic

end UniqueJobs
