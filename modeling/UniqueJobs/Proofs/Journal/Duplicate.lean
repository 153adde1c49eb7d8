import UniqueJobs.Proofs.Journal.Holder
import UniqueJobs.Proofs.Traffic.Ownership

/-!
What a job is dropped for. Main statement: `Traffic.dropped_for_handed`, that the instance named
holds the window and has been handed over to be enqueued; `Traffic.not_dropsForEnqueued` is a run in
which it has not been enqueued.
-/

namespace UniqueJobs

/-- Has an instance been handed over to be enqueued? -/
def Handed (J : JobId) (log : List Note) : Prop :=
  ∃ place job s, .handed ⟨.schedule, J, place⟩ job s ∈ log

/-- Has an instance been enqueued, or is that still going on? -/
def Enqueued (J : JobId) (log : List Note) : Prop :=
  ∃ place job s, .handed ⟨.schedule, J, place⟩ job s ∈ log ∧
    ∀ result s', .finished ⟨.schedule, J, place⟩ result s' ∈ log → result = .ok ()

def Failed (J : JobId) (log : List Note) : Prop :=
  ∃ place e s, .finished ⟨.schedule, J, place⟩ (.error e) s ∈ log

theorem Handed.enqueued {J : JobId} {log : List Note} (h : Handed J log)
    (hfailed : ¬ Failed J log) : Enqueued J log := by
  obtain ⟨place, job, s, hmem⟩ := h
  refine ⟨place, job, s, hmem, ?_⟩
  intro result s' hfinished
  cases result with
  | ok u => rfl
  | error e => exact absurd ⟨place, e, s', hfinished⟩ hfailed

/-- Is the holder of the window one that has been handed over? -/
def Justified (k : JobKey) (log : List Note) (s : Site) : Prop :=
  ∀ J, s.holder? k = some J → Handed J log

def DropJustified (k : JobKey) (log : List Note) (n : Note) : Prop :=
  ∀ caller J s, n = .scheduled caller (.ok (.dropped J)) s →
    s.holder? k = some J ∧ Handed J log

theorem Handed.append {J : JobId} {log : List Note} (h : Handed J log) (more : List Note) :
    Handed J (log ++ more) := by
  obtain ⟨place, job, s, hmem⟩ := h
  exact ⟨place, job, s, List.mem_append_left more hmem⟩

section

variable {settings : Settings} {strategy : Strategy} {k : JobKey} {M : Measures} {caller : Caller}
  {s s' : Site} {log notes : List Note}

theorem Justified.append {more : List Note} (h : Justified k log s) :
    Justified k (log ++ more) s := fun J hJ ↦ (h J hJ).append more

theorem Justified.still (h : Justified k log s) (hs : s.Still s') : Justified k log s' := by
  intro J hJ
  rw [hs.holder?] at hJ
  exact h J hJ

theorem Chain.attested_touches (h : Chain (Touch k M caller) s notes s') (log : List Note) :
    Attested (DropJustified k) log notes := by
  apply Attested.of_forall
  rintro log n hn other J s rfl
  cases h.forall_mem _ hn

end

namespace Pass

variable {k : JobKey} {p : Pass} {s s' : Site} {log notes : List Note}

theorem Barred.justifies {o : Outcome} (h : p.Barred s o notes s')
    (hstage : p.caller.stage = .schedule) (hkey : p.claimant.key = k)
    (hs : Sound k s.clock s.store.entries) (hlog : Justified k log s) :
    Ledger (DropJustified k) (Justified k) log (notes ++ [o.note p.caller s']) s' := by
  have hchain := h.chain (M := fun _ ↦ True) hkey trivial
  obtain ⟨J, rfl, -, hholder⟩ := h.exists_holder (M := fun _ ↦ True) hkey trivial hs
  have hJ := hlog J hholder
  refine ⟨(hchain.attested_touches log).append ⟨?_, trivial⟩, ?_⟩
  · intro caller J' s heq
    rw [Outcome.note, hstage] at heq
    cases heq
    exact ⟨(hchain.holds hholder).2, hJ.append notes⟩
  · intro J' hJ'
    rw [(hchain.holds hholder).2] at hJ'
    cases hJ'
    exact hJ.append _

theorem Enters.justifies {held : Bool} {given : Job} (h : p.Enters s held notes given s')
    (hstage : p.caller.stage = .schedule) (hid : p.claimant.id = p.caller.id)
    (hkey : p.claimant.key = k) (hs : Sound k s.clock s.store.entries) (hlog : Justified k log s) :
    Ledger (DropJustified k) (Justified k) log (notes ++ [.handed p.caller given s']) s' := by
  have hchain := h.chain (M := fun _ ↦ True) hkey trivial
  refine ⟨(hchain.attested_touches log).append ⟨by rintro _ _ _ ⟨⟩, trivial⟩, ?_⟩
  intro J hJ
  rcases h.holder? (M := fun _ ↦ True) hkey trivial hs with ⟨-, hown, -⟩ | ⟨-, hsame, -⟩
  · rw [hown] at hJ
    cases hJ
    refine ⟨p.caller.place, given, s', ?_⟩
    rw [hid, ← hstage]
    simp
  · rw [hsame] at hJ
    exact (hlog J hJ).append _

theorem Leaves.justifies {held : Bool} {result : Except String Unit}
    (h : p.Leaves s held result notes s') (hstage : p.caller.stage = .schedule)
    (hlog : Justified k log s) : Ledger (DropJustified k) (Justified k) log
      (.finished p.caller result s :: notes ++ [(Outcome.ended result).note p.caller s']) s' := by
  cases h with
  | schedule _ hquiet =>
    refine ⟨⟨by rintro _ _ _ ⟨⟩, ?_, trivial⟩, (hlog.still hquiet.toStill).append⟩
    intro caller J s heq
    rw [Outcome.note, hstage] at heq
    cases result <;> cases heq
  | kept hperform => cases hstage.symm.trans hperform
  | released hperform => cases hstage.symm.trans hperform
  | cleared hperform => cases hstage.symm.trans hperform

end Pass

/-- Is the traffic one of instances of one job that are scheduled? -/
def Traffic.Schedules (settings : Settings) (worker : String) (k : JobKey) (t : Traffic) : Prop :=
  t.Passes fun stage job _ ↦ stage = .schedule ∧ job.worker = worker ∧
    (job.identify settings.keyspace).1 = k

/-- The window is held by an instance that has been handed over, from one end of a run to the other,
so whatever is dropped is dropped for such an instance. -/
theorem Happens.justifies {settings : Settings} {strategy : Strategy} {k : JobKey}
    {worker : String} {t : Traffic} {place : List Bool} {s s' : Site} {log notes : List Note}
    (h : Happens settings strategy t place s notes s') (ht : t.Schedules settings worker k)
    (hs : Sound k s.clock s.store.entries) (hlog : Justified k log s) :
    Ledger (DropJustified k) (Justified k) log notes s' := by
  induction h generalizing log with
  | none => exact ⟨trivial, hlog.append⟩
  | @wait d _ _ s _ _ _ ih =>
    have hwait : Ledger (DropJustified k) (Justified k) log [.waited s (s.advance d)]
        (s.advance d) :=
      ⟨⟨by rintro _ _ _ ⟨⟩, trivial⟩, fun J hJ ↦ (hlog J (Site.holder?_of_advance hJ)).append _⟩
    exact hwait.append fun hnext ↦ ih ht (hs.wait (Nat.le_add_right _ _)) hnext
  | barred hquiet hbarred _ ih =>
    obtain ⟨⟨rfl, -, hkey⟩, -, hrest⟩ := ht
    rw [← hquiet.clock, ← hquiet.store] at hs
    have hs' := hbarred.sound (Pass.key_ofJob.trans hkey) hs
    have hown := hbarred.justifies rfl (Pass.key_ofJob.trans hkey) hs (hlog.still hquiet.toStill)
    simpa using hown.append (ih hrest hs')
  | through hquiet henters hwithin hleaves _ _ ihinside ihrest =>
    obtain ⟨⟨rfl, -, hkey⟩, hinside, hrest⟩ := ht
    rw [← hquiet.clock, ← hquiet.store] at hs
    have hs₂ := henters.sound (Pass.key_ofJob.trans hkey) hs
    have hs₃ := hwithin.sound (hinside.imp fun _ _ _ h ↦ h.2.2) hs₂
    have hs₄ := hleaves.sound (Pass.key_ofJob.trans hkey) hs₃
    have hfirst := henters.justifies rfl Pass.id_ofJob (Pass.key_ofJob.trans hkey) hs
      (hlog.still hquiet.toStill)
    have hwhile := hfirst.append (ihinside hinside hs₂)
    have hall := (hwhile.append (hleaves.justifies rfl)).append (ihrest hrest hs₄)
    simpa using hall

namespace Traffic

/-- Is every instance dropped for one that has been enqueued by then or is being enqueued? -/
def DropsForEnqueued (log : List Note) : Prop :=
  ∀ first caller J s rest, log = first ++ .scheduled caller (.ok (.dropped J)) s :: rest →
    Enqueued J first

/-- An instance is dropped only for the holder of the window, which has been handed over before.
That one has been enqueued or is being enqueued, unless an attempt to enqueue it has failed. -/
theorem dropped_for_handed {settings : Settings} {worker : String} {k : JobKey} (t : Traffic)
    {s : Site} (ht : t.Schedules settings worker k) (hs : s.Calm)
    (hempty : s.store.entries = .empty) (hlocks : (s.strategyFor worker).locks = true) :
    (¬ Overdue (s.wall + t.duration) → ∃ log s', t.journal? settings s = some (log, s')) ∧
      ∀ log s', t.journal? settings s = some (log, s') → ∀ first caller J site rest,
        log = first ++ .scheduled caller (.ok (.dropped J)) site :: rest →
          site.holder? k = some J ∧ Handed J first ∧ (¬ Failed J first → Enqueued J first) := by
  obtain ⟨hends, hhappens⟩ := t.happens settings (ht.imp fun _ _ _ h ↦ h.2.1) hs hlocks
  refine ⟨hends, ?_⟩
  intro log s' hrun first caller J site rest hlog
  have hsound : Sound k s.clock s.store.entries := by
    rw [hempty]
    exact .empty k s.clock
  have hnone : Justified k [] s := by
    intro J hJ
    rw [Site.holder?, hempty] at hJ
    cases hJ
  have hattested := ((hhappens log s' hrun).justifies ht hsound hnone).1
  rw [hlog] at hattested
  obtain ⟨hholder, hhanded⟩ := hattested.at_note caller J site rfl
  exact ⟨hholder, hhanded, hhanded.enqueued⟩

theorem calm_shop (strategy : String) : (shop strategy).Calm := ⟨rfl, rfl⟩

/-- While one instance is being enqueued, another one is scheduled. -/
def overlapping : Traffic :=
  through .schedule (pieceOfWork "a") (through .schedule (pieceOfWork "b") none none) none

theorem dropped_for_handed_overlapping :
    ∃ first caller site rest s', overlapping.journal? .default (shop "until_executed") =
        some (first ++ .scheduled caller (.ok (.dropped ⟨"a"⟩)) site :: rest, s') ∧
      site.holder? ⟨"k"⟩ = some ⟨"a"⟩ ∧ Enqueued ⟨"a"⟩ first := by
  have hrun : (overlapping.journal? .default (shop "until_executed")).map
      (fun r ↦ r.1.map Note.headline) = some ([.called ⟨.schedule, ⟨"a"⟩, []⟩ false,
        .handed ⟨.schedule, ⟨"a"⟩, []⟩, .called ⟨.schedule, ⟨"b"⟩, [true]⟩ false] ++
        .scheduled ⟨.schedule, ⟨"b"⟩, [true]⟩ (.barred ⟨"a"⟩) ::
        [.finished ⟨.schedule, ⟨"a"⟩, []⟩ false, .scheduled ⟨.schedule, ⟨"a"⟩, []⟩ .passed]) := by
    decide +kernel
  obtain ⟨first, n, rest, s', hjournal, hfirst, hn, -⟩ := exists_note_of_outline hrun
  obtain ⟨site, rfl⟩ := Note.eq_dropped hn
  have hschedules : overlapping.Schedules .default "w" ⟨"k"⟩ :=
    ⟨⟨rfl, rfl, rfl⟩, ⟨⟨rfl, rfl, rfl⟩, trivial, trivial⟩, trivial⟩
  obtain ⟨hholder, -, henqueued⟩ := (dropped_for_handed overlapping hschedules (calm_shop _) rfl
    rfl).2 _ s' hjournal first _ ⟨"a"⟩ site rest rfl
  refine ⟨first, _, site, rest, s', hjournal, hholder, henqueued ?_⟩
  rintro ⟨place, e, s, hmem⟩
  have hheadline := List.mem_map_of_mem (f := Note.headline) hmem
  rw [hfirst] at hheadline
  simp [Note.headline] at hheadline

/-- One instance cannot be enqueued, and then another one is scheduled. -/
def refusing : Traffic :=
  pass .schedule (pieceOfWork "a") (fun _ location baseline ↦ Lsn.distance location baseline) none
    (fun job ↦ (.error "the queue is full", job)) (through .schedule (pieceOfWork "b") none none)

/-- The other instance is dropped for one that has not been enqueued. -/
theorem not_dropsForEnqueued :
    refusing.Schedules .default "w" ⟨"k"⟩ ∧ (shop "until_executed").Calm ∧
      (shop "until_executed").store.entries = .empty ∧
      ((shop "until_executed").strategyFor "w").locks = true ∧
      ∃ log s', refusing.journal? .default (shop "until_executed") = some (log, s') ∧
        ¬ DropsForEnqueued log := by
  refine ⟨⟨⟨rfl, rfl, rfl⟩, trivial, ⟨rfl, rfl, rfl⟩, trivial, trivial⟩, calm_shop _, rfl, rfl, ?_⟩
  have hrun : (refusing.journal? .default (shop "until_executed")).map
      (fun r ↦ r.1.map Note.headline) = some ([.called ⟨.schedule, ⟨"a"⟩, []⟩ false,
        .handed ⟨.schedule, ⟨"a"⟩, []⟩, .finished ⟨.schedule, ⟨"a"⟩, []⟩ true,
        .scheduled ⟨.schedule, ⟨"a"⟩, []⟩ .failed, .called ⟨.schedule, ⟨"b"⟩, [false]⟩ false] ++
        .scheduled ⟨.schedule, ⟨"b"⟩, [false]⟩ (.barred ⟨"a"⟩) :: []) := by
    decide +kernel
  obtain ⟨first, n, rest, s', hjournal, hfirst, hn, -⟩ := exists_note_of_outline hrun
  obtain ⟨site, rfl⟩ := Note.eq_dropped hn
  refine ⟨_, s', hjournal, ?_⟩
  intro hdrops
  obtain ⟨place, job, s, hhanded, hall⟩ := hdrops first _ ⟨"a"⟩ site rest rfl
  -- The one attempt to enqueue the instance is the one that has failed.
  have hplace := List.mem_map_of_mem (f := Note.headline) hhanded
  rw [hfirst] at hplace
  obtain rfl : place = [] := by simpa [Note.headline] using hplace
  have hfailed : Headline.finished ⟨.schedule, ⟨"a"⟩, []⟩ true ∈ first.map Note.headline := by
    rw [hfirst]
    simp
  obtain ⟨m, hm, hheadline⟩ := List.mem_map.mp hfailed
  obtain ⟨e, s₁, rfl⟩ := Note.eq_finished hheadline
  cases hall _ s₁ hm

end Traffic

end UniqueJobs
