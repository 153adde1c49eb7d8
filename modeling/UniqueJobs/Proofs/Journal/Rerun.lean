import Mathlib.Logic.Basic
import UniqueJobs.Proofs.Journal.Flag
import UniqueJobs.Proofs.Journal.Holder

/-!
One instance runs again for all that were dropped. Nothing is handed over to run again but by a
performance whose continuation has succeeded, when an instance was dropped since the last release,
and then it is one job. Main statement: `Traffic.runs_again_once`.
-/

namespace UniqueJobs

open Entries

/-- A note that nothing is handed over at, and that is not where a performance has ended. -/
structure Note.Withholds (jobs : List Job) (n : Note) : Prop where
  before : n.before.rescheduled = jobs
  after : n.after.rescheduled = jobs
  going : ∀ caller result site, n ≠ .performed caller result site

variable {settings : Settings} {k : JobKey} {M : Measures} {caller : Caller} {n : Note}
  {s s' : Site} {notes log : List Note} {worker : String}

section

theorem Contact.withholds (caller : Caller) (c : Claimant) (contact : Contact) (s : Site) :
    (contact.note caller c s).Withholds s.rescheduled :=
  ⟨rfl, rfl, by rintro _ _ _ ⟨⟩⟩

/-- Notes from one site to another at which nothing is handed over, and none of which is where a
performance has ended. -/
structure Withheld (s : Site) (notes : List Note) (s' : Site) : Prop where
  notes : ∀ n ∈ notes, n.Withholds s.rescheduled
  same : s'.rescheduled = s.rescheduled

theorem Withheld.nil (h : s'.rescheduled = s.rescheduled) : Withheld s [] s' := ⟨by simp, h⟩

theorem Withheld.append {s'' : Site} (h : Withheld s notes s') (h' : Withheld s' log s'') :
    Withheld s (notes ++ log) s'' := by
  obtain ⟨hnotes, hsame⟩ := h
  obtain ⟨hmore, hsame'⟩ := h'
  rw [hsame] at hmore hsame'
  exact ⟨List.forall_mem_append.mpr ⟨hnotes, hmore⟩, hsame'⟩

theorem Calls.withheld {c : Claimant} {contacts : List Contact}
    (h : Calls caller c contacts s notes s') : Withheld s notes s' := by
  refine ⟨?_, h.rescheduled⟩
  induction h with
  | rest => simp
  | @call contact _ s s₁ _ _ hquiet _ ih =>
    have hmet : (s₁.met c contact).rescheduled = s.rescheduled := hquiet.rescheduled
    rw [hmet] at ih
    refine List.forall_mem_cons.mpr ⟨?_, ih⟩
    rw [← hquiet.rescheduled]
    exact Contact.withholds _ _ _ _

namespace Pass

variable {p : Pass} {job : Job}

theorem Reads.withheld (h : p.Reads s notes job s') : Withheld s notes s' := by
  cases h with
  | schedule _ h => exact .nil h.rescheduled
  | perform _ h =>
    cases h with
    | nothing _ h => exact .nil h.rescheduled
    | failed _ h | answered _ _ h => exact h.withheld

theorem Claims.withheld {winner : JobId} (h : p.Claims winner s notes s') :
    Withheld s notes s' := by
  cases h with
  | intro hclaim _ _ hcalls _ => exact hclaim.withheld.append hcalls.withheld

theorem Enters.withheld {held : Bool} (h : p.Enters s held notes job s') :
    Withheld s notes s' := by
  cases h with
  | bypass _ _ _ h => exact .nil h.rescheduled
  | unasked _ _ hread => exact hread.withheld
  | unanswered _ _ hread hclaim _ => exact hread.withheld.append hclaim.withheld
  | own _ hread hclaims => exact hread.withheld.append hclaims.withheld

theorem Barred.withheld {o : Outcome} (h : p.Barred s o notes s') : Withheld s notes s' := by
  cases h with
  | refused _ hread hclaim _ => exact hread.withheld.append hclaim.withheld
  | foreign _ hread hclaims _ hflag =>
    exact (hread.withheld.append hclaims.withheld).append hflag.withheld

theorem Enters.worker_key {strategy : Strategy}
    {measure : String → String → String → Except LsnError Int64} {o : Option Worker}
    {held : Bool} {given : Job}
    (h : (ofJob settings strategy measure caller o job).Enters s held notes given s') :
    given.worker = job.worker ∧ given.key = some (job.identify settings.keyspace).1.text := by
  have hjob : (ofJob settings strategy measure caller o job).job.worker = job.worker ∧
      (ofJob settings strategy measure caller o job).job.key =
        some (job.identify settings.keyspace).1.text := by
    rw [ofJob, Claimant.ofJob, Job.identify]
    cases hkey : job.key with
    | none => exact ⟨rfl, rfl⟩
    | some text => exact ⟨rfl, hkey⟩
  have hread {s s' : Site} {notes : List Note} {given : Job}
      (h : (ofJob settings strategy measure caller o job).Reads s notes given s') :
      given.worker = job.worker ∧ given.key = some (job.identify settings.keyspace).1.text := by
    cases h with
    | schedule => exact hjob
    | perform _ h =>
      cases h with
      | nothing | failed => exact hjob
      | answered d =>
        split
        · exact hjob
        · exact hjob
  cases h with
  | bypass => exact hjob
  | unasked _ _ h => exact hread h
  | unanswered _ _ h _ _ => exact hread h
  | own _ h _ => exact hread h

end Pass

end

/-- How a performance comes to its outcome. Its continuation ends, the flag is read, the records are
released, and the job is handed over to run again if the flag was found. -/
inductive Concludes (worker : String) (k : JobKey) (arrivals : List Arrival) :
    List Note → Note → Prop
  | intro {a : Arrival} {given : Job} {start ending s' site : Site} {early own : List Note}
      {c : Claimant} (ha : a ∈ arrivals) (hhanded : .handed a.caller given start ∈ early)
      (hworker : given.worker = worker) (hgiven : given.key = some k.text) (hkey : c.key = k)
      (hagain : c.runsAgain = true)
      (hcalls : Calls a.caller c (c.flagReads ++ [.release]) ending own s')
      (hlast : s'.Still site)
      (herror : ∀ e, (a.finish given).1 = .error e → site.rescheduled = ending.rescheduled)
      (hok : (a.finish given).1 = .ok () → site.rescheduled = ending.rescheduled ++
        if c.findsFlag ending then [ending.respawned (a.finish given).2] else []) :
      Concludes worker k arrivals (early ++ .finished a.caller (a.finish given).1 ending :: own)
        (.performed a.caller (Outcome.ended (a.finish given).1).performed site)

/-- Is nothing handed over at a note or since the note before it, unless a performance has ended? -/
structure Tallies (s : Site) (Q : List Note → Note → Prop) (log : List Note) (n : Note) : Prop where
  during : n.after.rescheduled = n.before.rescheduled
  since : (n.before.rescheduled = (s.past log).rescheduled ∧
    ∀ caller result site, n ≠ .performed caller result site) ∨ Q log n

/-- Is what has been handed over the same as at the last note? -/
def Tallied (s : Site) (log : List Note) (s' : Site) : Prop :=
  (s.past log).rescheduled = s'.rescheduled

theorem Site.past_concat (s : Site) (log : List Note) (n : Note) : s.past (log ++ [n]) = n.after := by
  rw [past, List.foldl_append]
  rfl

variable {s₀ : Site} {Q : List Note → Note → Prop}

theorem Tallied.ledger_of_one (h : Tallied s₀ log s) (hn : n.Withholds s.rescheduled) :
    Ledger (Tallies s₀ Q) (Tallied s₀) log [n] n.after := by
  refine .one ⟨hn.after.trans hn.before.symm, .inl ⟨?_, hn.going⟩⟩ ?_
  · exact hn.before.trans h.symm
  · rw [Tallied, Site.past_concat]

theorem Tallied.ledger (h : Tallied s₀ log s) (hnotes : Withheld s notes s') :
    Ledger (Tallies s₀ Q) (Tallied s₀) log notes s' := by
  induction notes generalizing log s with
  | nil => exact .nil (h.trans hnotes.same.symm)
  | cons n rest ih =>
    obtain ⟨hn, hrest⟩ := List.forall_mem_cons.mp hnotes.notes
    have hmore : Withheld n.after rest s' :=
      ⟨by rwa [hn.after], hnotes.same.trans hn.after.symm⟩
    exact (h.ledger_of_one hn).append fun hnext ↦ ih hnext hmore

theorem Pass.Leaves.cases_of_untilExecuted {p : Pass} {held : Bool} {result : Except String Unit}
    (h : p.Leaves s held result notes s') (hstrategy : p.strategy = .untilExecuted) :
    (p.caller.stage = .schedule ∧ notes = [] ∧ s.Quiet s') ∨ p.caller.stage = .perform ∧
      ∃ s₁, Calls p.caller p.claimant (p.claimant.flagReads ++ [.release]) s notes s₁ ∧
        s₁.Still s' := by
  cases h with
  | schedule hstage hquiet => exact .inl ⟨hstage, rfl, hquiet⟩
  | kept _ hexecuting | released _ hexecuting _ => cases hstrategy.symm.trans hexecuting
  | cleared hstage _ hcalls hlast => exact .inr ⟨hstage, _, hcalls, hlast⟩

/-- From the end of the continuation on, a job is handed over only for the outcome of a performance,
and if the flag was found. -/
theorem Pass.Leaves.ledger_of_handed {p : Pass} {held : Bool} {job given : Job}
    {finish : Job → Except String Unit × Job} (start : Site) {arrivals : List Arrival}
    (h : p.Leaves s held (finish given).1 notes s') (hstrategy : p.strategy = .untilExecuted)
    (hhands : s'.rescheduled =
      s.rescheduled ++ p.handedOver s (finish given).1 (finish given).2)
    (ha : ⟨p.caller, job, finish⟩ ∈ arrivals) (hhanded : .handed p.caller given start ∈ log)
    (hworker : given.worker = worker) (hgiven : given.key = some k.text)
    (hkey : p.claimant.key = k) (hagain : p.claimant.runsAgain = true)
    (hlog : Tallied s₀ (log ++ [.finished p.caller (finish given).1 s]) s) :
    Ledger (Tallies s₀ (Concludes worker k arrivals)) (Tallied s₀)
      (log ++ [.finished p.caller (finish given).1 s])
      (notes ++ [(Outcome.ended (finish given).1).note p.caller s']) s' := by
  rw [Outcome.note]
  rcases h.cases_of_untilExecuted hstrategy with
    ⟨hstage, rfl, hquiet⟩ | ⟨hstage, s₁, hcalls, hlast⟩
  · rw [hstage, List.nil_append]
    have hnext : Tallied s₀ _ s' := hlog.trans hquiet.rescheduled.symm
    exact hnext.ledger_of_one ⟨rfl, rfl, by rintro _ _ _ ⟨⟩⟩
  · rw [hstage]
    apply (hlog.ledger hcalls.withheld).append
    intro _
    refine .one ⟨rfl, .inr ?_⟩ (congrArg _ (Site.past_concat _ _ _))
    rw [List.append_assoc]
    refine .intro ha hhanded hworker hgiven hkey hagain hcalls hlast ?_ ?_
    · intro e he
      rw [hhands, he, handedOver_error, List.append_nil]
    · intro hok
      rw [hhands, hok, handedOver_ok hstage hstrategy]

/-- In all that happens, a job is handed over only as a performance comes to its outcome. -/
theorem Happens.ledger_of_handed {t : Traffic} {place : List Bool} {arrivals : List Arrival}
    (h : Happens settings .untilExecuted t place s notes s')
    (ht : t.Passes fun _ job _ ↦ job.worker = worker ∧ (job.identify settings.keyspace).1 = k)
    (hagain : s.RunsAgain worker) (hall : t.arrivals place ⊆ arrivals)
    (hlog : Tallied s₀ log s) :
    Ledger (Tallies s₀ (Concludes worker k arrivals)) (Tallied s₀) log notes s' := by
  induction h generalizing log with
  | none => exact .nil hlog
  | @wait d rest _ s _ _ _ ih =>
    have hwait : (Note.waited s (s.advance d)).Withholds s.rescheduled :=
      ⟨rfl, rfl, by rintro _ _ _ ⟨⟩⟩
    exact (hlog.ledger_of_one hwait).append fun hnext ↦ ih ht hagain hall hnext
  | @barred stage job _ _ _ _ place o own _ s s₁ s₂ _ hquiet hbarred _ ih =>
    obtain ⟨-, -, hrest⟩ := ht
    have hagain' := (hquiet.like.trans hbarred.like).runsAgain hagain
    have hsub := List.Subset.trans (List.subset_append_right _ _) (List.cons_subset.mp hall).2
    -- Only on the side that schedules is the window asked for.
    obtain rfl : stage = .schedule := hbarred.asks.resolve_right (by rintro ⟨⟩)
    have hnote : (o.note ⟨.schedule, job.id, place⟩ s₂).Withholds s₂.rescheduled :=
      ⟨rfl, rfl, by rintro _ _ _ ⟨⟩⟩
    have hfirst : Ledger (Tallies s₀ (Concludes worker k arrivals)) (Tallied s₀) log own s₂ :=
      Tallied.ledger (hlog.trans hquiet.rescheduled.symm) hbarred.withheld
    have hall := (hfirst.append fun hnext ↦ hnext.ledger_of_one hnote).append fun hnext ↦
      ih hrest hagain' hsub hnext
    simpa using hall
  | @through stage job given _ _ finish _ place _ before within after more s s₁ s₂ s₃ s₄ _ hquiet
      henters hwithin hleaves hhands _ ihinside ihrest =>
    obtain ⟨⟨rfl, hkey⟩, hinside, hrest⟩ := ht
    obtain ⟨ha, hsub⟩ := List.cons_subset.mp hall
    obtain ⟨hsubinside, hsubrest⟩ := List.append_subset.mp hsub
    have hagain₂ := (hquiet.like.trans henters.like).runsAgain hagain
    have hagain₄ := (hwithin.later.trans hleaves.like.later).runsAgain hagain₂
    have hhanded : (Note.handed ⟨stage, job.id, place⟩ given s₂).Withholds s₂.rescheduled :=
      ⟨rfl, rfl, by rintro _ _ _ ⟨⟩⟩
    have hfinished : (Note.finished ⟨stage, job.id, place⟩ (finish given).1 s₃).Withholds
        s₃.rescheduled := ⟨rfl, rfl, by rintro _ _ _ ⟨⟩⟩
    have hfirst : Ledger (Tallies s₀ (Concludes job.worker k arrivals)) (Tallied s₀) log
        before s₂ := Tallied.ledger (hlog.trans hquiet.rescheduled.symm) henters.withheld
    have hup := ((hfirst.append fun hnext ↦ hnext.ledger_of_one hhanded).append fun hnext ↦
      ihinside hinside hagain₂ hsubinside hnext).append fun hnext ↦ hnext.ledger_of_one hfinished
    obtain ⟨hworker, hgiven⟩ := henters.worker_key
    rw [hkey] at hgiven
    have hend := hup.append fun hnext ↦ by
      rw [← List.append_assoc] at hnext ⊢
      exact hleaves.ledger_of_handed s₂ rfl hhands ha (by simp) hworker hgiven
        (Pass.key_ofJob.trans hkey) (Pass.runsAgain_ofJob hagain) hnext
    have hall := hend.append fun hnext ↦ ihrest hrest hagain₄ hsubrest hnext
    simpa using hall

/-- Where no flag was at first and no waiting outlasts it, it is there if an instance was dropped
since the last release, and only then. -/
theorem Chain.isSome_flag?_iff {W : Caller → Site → Duration → Prop} {early late : List Note}
    {s₁ : Site} (h : Chain (Move k M) s (early ++ n :: late) s')
    (hflagging : Flagging k W (early ++ n :: late)) (hn : ¬ n.Drops) (hs : Sound k s.clock s.store.entries) (hnone : s.flag? k = none)
    (hstays : FlagStays k (early ++ n :: late)) (hearly : Chain (Move k M) s early s₁) :
    (s₁.flag? k).isSome = true ↔ Since k Note.Drops early := by
  constructor
  · intro hflag
    obtain ⟨e, he⟩ := Option.isSome_iff_exists.mp hflag
    rcases hearly.flag?_cases hs he with ⟨hold, -⟩ | hset
    · cases hnone.symm.trans hold
    · have hlog : early ++ n :: late = [] ++ early ++ n :: late := rfl
      rw [hlog] at hflagging
      rcases hflagging.exists_drop_of_since (fun _ h ↦ h.1) hset with hdrop | ⟨m, hm, hdrop⟩
      · exact hdrop
      · obtain rfl : n = m := Option.some.inj hm
        exact absurd hdrop hn
  · rintro ⟨first, drop, span, rfl, ⟨caller, J, site, rfl⟩, hreleases⟩
    rw [List.append_assoc, List.cons_append] at h hflagging
    obtain ⟨_, _, _, _, _, _, _, hsite, _, _, _, _⟩ := h.exists_flag_of_drop hflagging
    obtain ⟨s₃, hfirst', hspan⟩ := hearly.exists_between
    cases hspan with
    | step hstill' hdrop hspan =>
      have hsub : span ⊆ first ++ .scheduled caller (.ok (.dropped J)) site :: span ++ n :: late :=
        fun m hm ↦ by simp [hm]
      exact hspan.isSome_flag? hreleases (hstays.mono hsub) (Option.isSome_of_eq_some hsite)

theorem Claimant.findsFlag_eq {c : Claimant} (hkey : c.key = k) (hagain : c.runsAgain = true)
    (hs : Sound k s.clock s.store.entries) : c.findsFlag s = (s.flag? k).isSome := by
  subst hkey
  rw [findsFlag, hagain, Bool.true_and]
  cases hflag : s.flag? c.key with
  | none => exact congrArg _ (text?_of_live?_eq_none hflag)
  | some e =>
    obtain ⟨v, hv⟩ := hs.exists_flag hflag
    obtain ⟨_, x⟩ := e
    subst hv
    exact congrArg _ (text?_of_live? hflag)

/-- Does every job that is scheduled next come to be enqueued, if enqueuing succeeds? -/
def Site.Enqueues (settings : Settings) (worker : String) (k : JobKey) (s : Site) (job : Job) :
    Prop :=
  ∀ measure inside finish (next : Traffic),
    next = .pass .schedule job measure inside finish .none → (inside.Passes fun _ job _ ↦
      job.worker = worker ∧ (job.identify settings.keyspace).1 = k) →
      (∀ given, (finish given).1 = .ok ()) →
        (¬ Overdue (s.wall + next.duration) → ∃ log s', next.journal? settings s = some (log, s')) ∧
          ∀ log s', next.journal? settings s = some (log, s') →
            .scheduled ⟨.schedule, job.id, []⟩ (.ok (.enqueued ())) s' ∈ log

/-- At a site where no instance holds the window, a job is enqueued. -/
theorem Site.Calm.enqueues {job : Job} (hs : s.Calm) (hsound : Sound k s.clock s.store.entries)
    (hlocks : (s.strategyFor worker).locks = true) (hworker : job.worker = worker)
    (hkey : (job.identify settings.keyspace).1 = k) (hnone : s.holder? k = none) :
    s.Enqueues settings worker k job := by
  rintro measure inside finish next hnext hinside hfinish
  have hpasses : next.Passes fun _ job _ ↦ job.worker = worker ∧
      (job.identify settings.keyspace).1 = k := by
    rw [hnext]
    exact ⟨⟨hworker, hkey⟩, hinside, trivial⟩
  obtain ⟨hends, hhappens⟩ := next.happens settings (hpasses.imp fun _ _ _ h ↦ h.1) hs hlocks
  refine ⟨hends, ?_⟩
  intro log s' hrun
  have hhappens := hhappens log s' hrun
  subst hnext
  cases hhappens with
  | barred hquiet hbarred _ =>
    rw [← hquiet.clock, ← hquiet.store] at hsound
    obtain ⟨J, -, -, hholder⟩ := hbarred.exists_holder (M := fun _ ↦ True)
      (Pass.key_ofJob.trans hkey) trivial hsound
    rw [hquiet.holder?, hnone] at hholder
    cases hholder
  | @through _ _ given _ _ _ _ _ _ _ _ _ _ _ _ _ _ _ _ _ _ _ _ _ hrest =>
    cases hrest
    have hnote : Note.scheduled ⟨.schedule, job.id, []⟩ (.ok (.enqueued ())) s' =
        (Outcome.ended (finish given).1).note ⟨.schedule, job.id, []⟩ s' := by
      rw [hfinish]
      rfl
    rw [hnote]
    simp

/-- From the end of a performance's continuation to its outcome, with the job that is handed over to
run again if one is. -/
structure Settles (settings : Settings) (worker : String) (k : JobKey) (early own : List Note)
    (result : Except String Unit) (again : Job) (ending site : Site) : Prop where
  /-- First all the records are released. -/
  cleared : ∃ reads released, own = reads ++ [released] ∧ released.Releases k ∧
    released.after.rescheduled = ending.rescheduled ∧
    ∀ r : Record, released.after.store.entries.live? released.after.clock (r.name k) = none
  /-- However many instances were dropped since the last release before, one job is handed over. -/
  once : result = .ok () → Since k Note.Drops early → site.rescheduled = ending.rescheduled ++ [again]
  only : ¬ (result = .ok () ∧ Since k Note.Drops early) → site.rescheduled = ending.rescheduled
  next : site.Enqueues settings worker k again

/-- What is handed over to run again along a journal of the traffic that begins at a site. -/
structure Reruns (settings : Settings) (worker : String) (k : JobKey) (t : Traffic) (s : Site)
    (log : List Note) : Prop where
  /-- Nothing but the outcome of a performance comes with a job that is handed over. -/
  elsewhere : ∀ first n rest, log = first ++ n :: rest → n.after.rescheduled = n.before.rescheduled ∧
    ((∀ caller outcome site, n ≠ .performed caller outcome site) →
      n.before.rescheduled = (s.past first).rescheduled)
  /-- It is the job as the continuation left it, with a new id and as if it had come for the first
  time. -/
  performed : ∀ first caller outcome site rest, log = first ++ .performed caller outcome site :: rest →
    ∃ a ∈ t.arrivals [], a.caller = caller ∧ ∃ given start early ending own,
      .handed caller given start ∈ early ∧
      first = early ++ .finished caller (a.finish given).1 ending :: own ∧
      outcome = (Outcome.ended (a.finish given).1).performed ∧
      Settles settings worker k early own (a.finish given).1
        { (a.finish given).2 with
          id := ending.nextId
          runAt := none
          duplicateOf := none
          latest := .empty }
        ending site

theorem Calls.exists_release {c : Claimant} (h : Calls caller c (c.flagReads ++ [.release]) s notes s')
    (hkey : c.key = k) (hs : Sound k s.clock s.store.entries) :
    ∃ reads released, notes = reads ++ [released] ∧ released.Releases k ∧
      released.after.rescheduled = s.rescheduled ∧ released.after.Still s' ∧
      ∀ r : Record, released.after.store.entries.live? released.after.clock (r.name k) = none := by
  obtain ⟨s₁, reads, last, rfl, hreads, hlast⟩ := h.exists_between
  have hchain := hreads.chain (M := fun _ ↦ True) hkey fun contact hcontact ↦ by
    rw [Claimant.eq_readFlag_of_mem hcontact]
    exact ⟨rfl, by simp⟩
  have hs₁ := (hchain.imp fun _ ↦ Touch.move_by).imp (fun _ hn ↦ hn.1) |>.sound hs
  subst hkey
  cases hlast with
  | @call _ _ _ s₂ _ _ hquiet hend =>
    cases hend with
    | rest hend =>
      rw [← hquiet.clock, ← hquiet.store] at hs₁
      exact ⟨reads, _, rfl, Contact.releases_release _ _ _, hquiet.rescheduled.trans
        hreads.rescheduled, hend.toStill, (hs₁.release_eq_none c.locations.keys).2⟩

theorem Chain.settles {early own : List Note} {result : Except String Unit} {again : Job}
    {c : Claimant} {ending s₁ s₂ site : Site}
    (h : Chain (Move k M) s (early ++ .finished caller result ending :: own) s₁)
    (hsite : s₁.Still site) (hflag : ∀ s₂, Chain (Move k M) s early s₂ →
      ((s₂.flag? k).isSome = true ↔ Since k Note.Drops early)) (hs : s.Calm)
    (hsound : Sound k s.clock s.store.entries) (hstrategy : s.strategyFor worker = .untilExecuted)
    (hkey : c.key = k) (hruns : c.runsAgain = true)
    (hcalls : Calls caller c (c.flagReads ++ [.release]) ending own s₂) (hlast : s₂.Still site)
    (herror : ∀ e, result = .error e → site.rescheduled = ending.rescheduled)
    (hok : result = .ok () → site.rescheduled = ending.rescheduled ++
      if c.findsFlag ending then [again] else [])
    (hworker : again.worker = worker) (hagain : again.key = some k.text) :
    Settles settings worker k early own result again ending site := by
  obtain ⟨s₃, hearly, hend⟩ := h.exists_between
  have hflag := hflag s₃ hearly
  have hending : Sound k ending.clock ending.store.entries := by
    cases hend with
    | step hstill _ _ =>
      have hs₃ := hearly.sound hsound
      rwa [← hstill.clock, ← hstill.store] at hs₃
  have hfinds : c.findsFlag ending = true ↔ Since k Note.Drops early := by
    rw [Claimant.findsFlag_eq hkey hruns hending, ← hflag]
    cases hend with
    | step hstill _ _ => exact Eq.congr_left (congrArg _ (hstill.flag? k))
  obtain ⟨reads, released, hown, hreleases, hkept, hstill, hgone⟩ := hcalls.exists_release hkey hending
  refine ⟨⟨reads, released, hown, hreleases, hkept, hgone⟩, ?_, ?_, ?_⟩
  · intro hresult hdropped
    rw [hok hresult, if_pos (hfinds.mpr hdropped)]
  · intro hnot
    cases result with
    | error e => exact herror e rfl
    | ok u =>
      have hnever : ¬ c.findsFlag ending = true := fun hfound ↦ hnot ⟨rfl, hfinds.mp hfound⟩
      rw [hok rfl, if_neg hnever, List.append_nil]
  · have hsound' := h.sound hsound
    obtain ⟨d, hlater⟩ := h.exists_later
    rw [← hsite.clock, ← hsite.store] at hsound'
    have hlocks : (site.strategyFor worker).locks = true := by
      rw [hsite.like.strategyFor, hlater.strategyFor, hstrategy]
      rfl
    have hidentify : (again.identify settings.keyspace).1 = k := by
      rw [Job.identify, hagain]
    have hfree : site.holder? k = none := by
      rw [(hstill.trans hlast).holder?]
      exact Site.holder?_of_live?_eq_none (hgone .holder)
    exact (hsite.like.calm (h.calm hs)).enqueues hsound' hlocks hworker hidentify hfree

theorem Happens.reruns {t : Traffic} (h : Happens settings .untilExecuted t [] s log s')
    (ht : t.Passes fun _ job _ ↦ job.worker = worker ∧ (job.identify settings.keyspace).1 = k)
    (hkeeps : ∀ a ∈ t.arrivals [], ∀ job, (a.finish job).2.worker = job.worker ∧
      (a.finish job).2.key = job.key) (hs : s.Calm) (hempty : s.store.entries = .empty)
    (hstrategy : s.strategyFor worker = .untilExecuted) (hagain : s.RunsAgain worker)
    (hstays : FlagStays k log) : Reruns settings worker k t s log := by
  have hsound : Sound k s.clock s.store.entries := by
    rw [hempty]
    exact .empty k s.clock
  have hnone : s.flag? k = Option.none := by
    unfold Site.flag?
    rw [hempty]
    rfl
  have hchain := (h.chain (M := fun _ ↦ True) (ht.imp fun _ _ _ h ↦ ⟨h.2, trivial⟩)).imp
    fun _ hn ↦ hn.1
  have hflagging := h.flagging ht hagain (List.Subset.refl _)
  have hstart : Tallied s [] s := rfl
  have htallies := (h.ledger_of_handed ht hagain (List.Subset.refl _) hstart).1
  constructor
  · rintro first n rest rfl
    have hn := htallies.at_note
    refine ⟨hn.during, fun hgoing ↦ ?_⟩
    rcases hn.since with ⟨hsame, -⟩ | hconcludes
    · exact hsame
    · cases hconcludes
      exact absurd rfl (hgoing _ _ _)
  · rintro first caller outcome site rest rfl
    have hconcludes : Concludes worker k (t.arrivals []) first (.performed caller outcome site) :=
      (htallies.at_note).since.resolve_left fun hgoing ↦ hgoing.2 _ _ _ rfl
    obtain ⟨s₃, hup, hend⟩ := hchain.exists_between
    cases hconcludes with
    | @intro a given start ending s₂ _ early own c ha hhanded hworker hgiven hkey hruns hcalls hlast
        herror hok =>
      refine ⟨a, ha, rfl, given, start, early, ending, own, hhanded, rfl, rfl, ?_⟩
      obtain ⟨hworker', hkey'⟩ := hkeeps a ha given
      rw [List.append_assoc] at hchain hflagging hstays
      have hflag (s₂ : Site) (hearly : Chain (Move k fun _ ↦ True) s early s₂) :=
        hchain.isSome_flag?_iff hflagging (by rintro ⟨_, _, _, ⟨⟩⟩) hsound hnone hstays hearly
      cases hend with
      | step hsite _ _ =>
        exact hup.settles hsite hflag hs hsound hstrategy hkey hruns hcalls hlast herror hok
          (hworker'.trans hworker) (hkey'.trans hgiven)

def Note.keepsFlag (k : JobKey) (n : Note) : Bool :=
  n.headline ≠ .waited || (n.before.flag? k).isNone || (n.after.flag? k).isSome

theorem flagStays_of_keepsFlag (h : log.all (Note.keepsFlag k) = true) : FlagStays k log := by
  intro before after hn hflag
  have hkeeps := List.all_eq_true.mp h _ hn
  simpa [Note.keepsFlag, Note.headline, Note.before, Note.after, Option.isSome_iff_ne_none.mp hflag]
    using hkeeps

namespace Traffic

/-- One instance runs again for all that were dropped since the last release, if a performance
succeeds then, and it is enqueued when it is scheduled next. -/
theorem runs_again_once {settings : Settings} {worker : String} {k : JobKey} (t : Traffic)
    {s : Site} (ht : t.Passes fun _ job _ ↦ job.worker = worker ∧
      (job.identify settings.keyspace).1 = k)
    (hkeeps : ∀ a ∈ t.arrivals [], ∀ job, (a.finish job).2.worker = job.worker ∧
      (a.finish job).2.key = job.key) (hs : s.Calm) (hempty : s.store.entries = .empty)
    (hstrategy : s.strategyFor worker = .untilExecuted) (hagain : s.RunsAgain worker) :
    (¬ Overdue (s.wall + t.duration) → ∃ log s', t.journal? settings s = some (log, s')) ∧
      ∀ log s', t.journal? settings s = some (log, s') → FlagStays k log →
        Reruns settings worker k t s log := by
  obtain ⟨hends, hhappens⟩ := t.happens_under settings (ht.imp fun _ _ _ h ↦ h.1) hs hstrategy rfl
  refine ⟨hends, ?_⟩
  intro log s' hrun hstays
  exact (hhappens log s' hrun).reruns ht hkeeps hs hempty hstrategy hagain hstays

/-- Two instances are dropped, the second of them while the first one runs. -/
def crowded : Traffic :=
  through .schedule (pieceOfWork "a") none <| through .schedule (pieceOfWork "b") none <|
    wait (.ofSecs 60) <| through .perform (pieceOfWork "a")
      (through .schedule (pieceOfWork "c") none none) none

theorem runs_again_once_crowded :
    ∃ log s', crowded.journal? .default (shopWith patient) = some (log, s') ∧
      s'.rescheduled.map Job.key = [some "k"] ∧ FlagStays ⟨"k"⟩ log ∧
      Reruns .default "w" ⟨"k"⟩ crowded (shopWith patient) log := by
  have hrun : (crowded.journal? .default (shopWith patient)).map
      (fun r ↦ (r.1.all (Note.keepsFlag ⟨"k"⟩), r.2.rescheduled.map Job.key)) =
        some (true, [some "k"]) := by
    decide +kernel
  obtain ⟨⟨log, s'⟩, hjournal, hresult⟩ := Option.map_eq_some_iff.mp hrun
  obtain ⟨hkept, hkeys⟩ := Prod.mk.inj hresult
  have hpasses : crowded.Passes fun _ job _ ↦ job.worker = "w" ∧
      (job.identify Settings.default.keyspace).1 = ⟨"k"⟩ :=
    ⟨⟨rfl, rfl⟩, trivial, ⟨rfl, rfl⟩, trivial, ⟨rfl, rfl⟩, ⟨⟨rfl, rfl⟩, trivial, trivial⟩, trivial⟩
  have hkeeps : ∀ a ∈ crowded.arrivals [], ∀ job, (a.finish job).2.worker = job.worker ∧
      (a.finish job).2.key = job.key := by
    simp [crowded, arrivals, through]
  have hagain : (shopWith patient).RunsAgain "w" := rfl
  have hstays := flagStays_of_keepsFlag hkept
  exact ⟨log, s', hjournal, hkeys, hstays, (runs_again_once crowded hpasses hkeeps ⟨rfl, rfl⟩ rfl rfl
    hagain).2 log s' hjournal hstays⟩

end Traffic

end UniqueJobs
