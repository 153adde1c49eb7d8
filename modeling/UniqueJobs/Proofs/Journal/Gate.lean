import UniqueJobs.Proofs.Journal.Act
import UniqueJobs.Proofs.Journal.Pass

/-!
Passages through the gate at a calm site, for any continuation that comes to an end. Main
statements: `ends_schedule` and `ends_perform`, that a job goes one of the ways of its pass.
-/

namespace UniqueJobs

open Entries

namespace Journal

variable {limit : Nat} {p : Pass} {s : Site} {next : Continuation Journal String Unit}
  {N : Job → Site → Except String Unit × Job → List Note → Site → Prop}

theorem ends_pass {α : Type} {job : Job} (hnext : Ends limit (next job) s (N job s))
    (wrap : Unit → α) (c : Claimant) :
    Ends limit (Passage.pass next wrap c job) s fun r notes s' ↦
      ∃ result job', N job s (result, job') notes s' ∧ r.result = match result with
        | .ok () => .ok (wrap ())
        | .error e => .error (.job e) := by
  apply hnext.bind
  rintro ⟨result, job'⟩ notes s' h
  rw [← List.append_nil notes] at h
  cases result with
  | ok u => exact Ends.pure ⟨.ok u, job', h, rfl⟩
  | error e => exact Ends.pure ⟨.error e, job', h, rfl⟩

theorem ends_let_through {α : Type} {held : Bool} {job : Job} {before : List Note} {s₁ : Site}
    (hnext : ∀ job s₁, s.Like s₁ → Ends limit (next job) s₁ (N job s₁))
    (henters : p.Enters s held before job s₁)
    (hleaves : ∀ result s₂, p.Leaves s₂ held result [] s₂)
    (hhands : ∀ s₂ result job, p.handedOver s₂ result job = [])
    {wrap : Unit → α} {f : Outcome → Except (Failure String) α}
    (hf : ∀ result, f (.ended result) = match result with
      | .ok () => .ok (wrap ())
      | .error e => .error (.job e)) (c : Claimant) :
    Ends limit (Passage.pass next wrap c job) s₁ fun r notes s' ↦
      ∃ o : Outcome, r.result = f o ∧ p.Goes N s o (before ++ notes) s' := by
  apply (ends_pass (hnext job s₁ henters.like) wrap c).imp
  rintro r notes s' ⟨result, job', hN, hr⟩
  have hgoes := Pass.Goes.through henters hN (hleaves result s')
    (by rw [hhands, List.append_nil])
  rw [List.append_nil] at hgoes
  exact ⟨.ended result, hr.trans (hf result).symm, hgoes⟩

theorem claims_of_checked {window : Duration} {winner : JobId} {latest : Option (Dictionary String)}
    {s₁ s' : Site} {notes more : List Note} {told : Claimant} {contacts : List Contact}
    (hclaim : Calls p.caller p.claimant [.claim window] s notes s₁)
    (hchecked : Site.Checked { p.claimant with latest } window s s₁ (.ok winner, told))
    (hcalls : Calls p.caller told contacts s₁ more s')
    (hoffers : ∀ contact ∈ contacts, contact.Offers told p.measure)
    (hwindow : s.date?.map p.claimant.window = some window) :
    p.Claims winner s (notes ++ more) s' := by
  cases hchecked with
  | answered _ baselines hentries hwinner hbaselines =>
    have hcalls' : Calls p.caller { p.claimant with winner := some winner, baselines, latest }
        contacts s₁ more s' := hcalls
    exact .intro hclaim hwinner hbaselines hcalls'.of_told hoffers hwindow

/-- A claim that is not answered, and what the policy makes of it. -/
theorem ends_afterFailedCheck {α : Type} {job : Job} {notes more : List Note} {s₁ s₂ : Site}
    {window : Duration} (hasks : p.Asks) (hread : p.Reads s notes job s₁)
    (hclaim : Calls p.caller p.claimant [.claim window] s₁ more s₂)
    (hsound : ¬ Sound p.claimant.key s₁.clock s₁.store.entries)
    (hwindow : s₁.date?.map p.claimant.window = some window)
    (hnext : ∀ job s₁, s.Like s₁ → Ends limit (next job) s₁ (N job s₁))
    (hleaves : ∀ result s₂, p.Leaves s₂ false result [] s₂)
    (hhands : ∀ s₂ result job, p.handedOver s₂ result job = [])
    {wrap : Unit → α} {f : Outcome → Except (Failure String) α}
    (hf : ∀ result, f (.ended result) = match result with
      | .ok () => .ok (wrap ())
      | .error e => .error (.job e))
    (hrefused : ∀ e, f (.refused e) = .error (.refused e))
    (stage : Stage) (c : Claimant) (e : ClaimError) :
    Ends limit (Passage.afterFailedCheck (host p.measure p.caller) stage p.policy next wrap c job e)
      s₂ fun r last s' ↦ ∃ o : Outcome, r.result = f o ∧
        p.Goes N s o (notes ++ more ++ last) s' := by
  apply (ends_emit _).bind
  rintro _ _ s₃ ⟨rfl, hquiet⟩
  have hclaim' := hclaim.quiet hquiet
  cases hpolicy : p.policy with
  | refuse =>
    refine Ends.pure ⟨.refused e, (hrefused e).symm, .barred ?_⟩
    rw [List.append_nil, List.append_nil]
    exact .refused hasks hread hclaim' hsound
  | proceed =>
    have henters := Pass.Enters.unanswered hasks hpolicy hread hclaim' hsound hwindow
    exact ends_let_through hnext henters hleaves hhands hf c

/-- A duplicate is dropped, with the flag set if it is to run again. -/
theorem ends_dropped (hs : s.Calm) (winner : JobId) (baselines : Dictionary String)
    (window : Duration) :
    let c : Claimant := { p.claimant with winner := some winner, baselines }
    let job : Job := { p.job with duplicateOf := some winner }
    Ends limit (do
      Passage.note (host p.measure p.caller) (.flagFailed job.id job.worker)
        (← c.setFlag (host p.measure p.caller).store window)
      (host p.measure p.caller).emit (.dropped job.id job.worker winner c.key p.strategy)
      pure ⟨.ok (.dropped winner), c, job⟩ :
        Journal (Passage (Except (Failure String) (Scheduled Unit)))) s
      fun r notes s' ↦ r.result = (Outcome.barred winner).scheduled ∧
        Calls p.caller p.claimant (p.claimant.flagWrites window) s notes s' := by
  intro c job
  apply (ends_setFlag hs c window).bind
  rintro flagged notes s₁ hflag
  apply (ends_note _ flagged).bind
  rintro _ _ s₂ ⟨rfl, hquiet⟩
  apply (ends_emit _).bind
  rintro _ _ s₃ ⟨rfl, hquiet'⟩
  have hflag' : Calls p.caller { p.claimant with
      winner := some winner, baselines, latest := p.claimant.latest }
      (p.claimant.flagWrites window) s notes s₃ := (hflag.quiet hquiet).quiet hquiet'
  refine Ends.pure ⟨rfl, ?_⟩
  simpa using hflag'.of_told

theorem ends_scheduleLocked (hs : s.Calm) (hlimit : s.wall ≤ limit)
    (hstage : p.caller.stage = .schedule)
    (hnext : ∀ job s₁, s.Like s₁ → Ends limit (next job) s₁ (N job s₁)) :
    Ends limit (Passage.scheduleLocked (host p.measure p.caller) p.policy p.strategy p.claimant
      p.job next) s fun r notes s' ↦
        ∃ o : Outcome, r.result = o.scheduled ∧ p.Goes N s o notes s' := by
  have hread : p.Reads s [] p.job s := .schedule hstage (.refl s)
  have hleaves (held : Bool) : ∀ result s₂, p.Leaves s₂ held result [] s₂ :=
    fun _ s₂ ↦ .schedule hstage (.refl s₂)
  have hhands := Pass.handedOver_of_schedule hstage
  rw [Passage.scheduleLocked]
  -- A job that is put off passes by the window, unless its worker includes such jobs.
  by_cases hbypass : (p.claimant.runAt.isSome && !p.claimant.uniqueness.includingScheduled) = true
  · rw [if_pos hbypass]
    simp only [Bool.and_eq_true, Bool.not_eq_true'] at hbypass
    have henters := Pass.Enters.bypass hstage hbypass.1 hbypass.2 (.refl s)
    exact ends_let_through hnext henters (hleaves false) hhands Outcome.scheduled_ended _
  rw [if_neg hbypass]
  apply (ends_now hlimit).bind
  rintro now _ _ ⟨hnow, rfl, rfl⟩
  apply (ends_check hs p.claimant _).bind
  rintro ⟨r, c⟩ notes s₁ ⟨hclaim, hchecked, hanswer⟩
  have hlike := hclaim.like
  have hwindow : s.date?.map p.claimant.window = some _ := congrArg _ hnow
  cases r with
  | error e =>
    exact ends_afterFailedCheck (.inl hstage) hread hclaim (hanswer e rfl) hwindow hnext
      (hleaves false) hhands Outcome.scheduled_ended (fun _ ↦ rfl) .schedule c e
  | ok winner =>
    apply (ends_offerLocations (hlike.calm hs) c).bind
    rintro offered more s₂ ⟨contacts, hcalls, hoffers⟩
    have hlike' := hlike.trans hcalls.like
    apply (ends_note _ offered).bind
    rintro _ _ s₃ ⟨rfl, hquiet⟩
    have hclaims : p.Claims winner s (notes ++ more) s₃ :=
      claims_of_checked hclaim hchecked (hcalls.quiet hquiet) hoffers hwindow
    obtain ⟨baselines, rfl⟩ : ∃ baselines, c =
        { p.claimant with winner := some winner, baselines } := by
      cases hchecked
      exact ⟨_, rfl⟩
    by_cases hwinner : winner = p.claimant.id
    · simp only [hwinner, ↓reduceIte]
      rw [hwinner] at hclaims
      have henters := Pass.Enters.own (.inl hstage) hread hclaims
      refine (ends_let_through hnext henters (hleaves true) hhands Outcome.scheduled_ended _).imp ?_
      rintro r last s' ⟨o, hr, hgoes⟩
      refine ⟨o, hr, ?_⟩
      simpa using hgoes
    · simp only [hwinner, ↓reduceIte]
      refine (ends_dropped ((hlike'.trans hquiet.like).calm hs) winner baselines _).imp ?_
      rintro r last s' ⟨hr, hflag⟩
      rw [← Pass.flagWrites_of_schedule hstage] at hflag
      have hforeign := Pass.Barred.foreign (.inl hstage) hread hclaims hwinner hflag hwindow
      exact ⟨.barred winner, hr, .barred (by simpa using hforeign)⟩

theorem ends_performUntilExecuting (hs : s.Calm) (hlimit : s.wall ≤ limit)
    (hstage : p.caller.stage = .perform) (hstrategy : p.strategy = .untilExecuting)
    (hfresh : p.claimant.latest = none)
    (hnext : ∀ job s₁, s.Like s₁ → Ends limit (next job) s₁ (N job s₁))
    (hcalm : ∀ job s₁ r notes s₂, s.Like s₁ → N job s₁ r notes s₂ → s₂.Calm) :
    Ends limit (Passage.performUntilExecuting (host p.measure p.caller) p.policy p.claimant p.job
      next) s fun r notes s' ↦
        ∃ o : Outcome, r.result = o.performed ∧ p.Goes N s o notes s' := by
  apply (ends_attachLatest hs hfresh p.job).bind
  rintro ⟨c, job⟩ notes s₁ ⟨⟨latest, rfl⟩, hattach⟩
  have hread : p.Reads s notes job s₁ := .perform hstage hattach
  have hlike := hread.like
  apply (ends_now (Nat.le_trans (Nat.le_of_eq hlike.wall) hlimit)).bind
  rintro now _ _ ⟨hnow, rfl, rfl⟩
  apply (ends_check (hlike.calm hs) { p.claimant with latest } _).bind
  rintro ⟨r, c⟩ more s₂ ⟨hclaim, hchecked, hanswer⟩
  -- The positions that the claimant has read make no difference to its claim.
  have htold : Calls p.caller { p.claimant with
      winner := p.claimant.winner, baselines := p.claimant.baselines, latest }
      [.claim _] s₁ more s₂ := hclaim
  have hclaim' := htold.of_told
  have hwindow : s₁.date?.map p.claimant.window = some (p.claimant.window now) := congrArg _ hnow
  have hlike' := hlike.trans hclaim.like
  have hhands := Pass.handedOver_of_untilExecuting hstrategy
  cases r with
  | error e =>
    have hleaves : ∀ result s₂, p.Leaves s₂ false result [] s₂ :=
      fun _ s₂ ↦ .kept hstage hstrategy (.inl rfl) (.refl s₂)
    refine (ends_afterFailedCheck (.inr hstrategy) hread hclaim' (hanswer e rfl) hwindow hnext
      hleaves hhands Outcome.performed_ended (fun _ ↦ rfl) .perform c e).imp ?_
    rintro r last s' ⟨o, hr, hgoes⟩
    exact ⟨o, hr, by simpa using hgoes⟩
  | ok winner =>
    have hclaims : p.Claims winner s₁ (more ++ []) s₂ :=
      claims_of_checked hclaim' hchecked (.rest (.refl s₂)) (by simp) hwindow
    rw [List.append_nil] at hclaims
    obtain ⟨baselines, rfl⟩ : ∃ baselines, c =
        { p.claimant with winner := some winner, baselines, latest } := by
      cases hchecked
      exact ⟨_, rfl⟩
    by_cases hwinner : winner = p.claimant.id
    · simp only [hwinner, ↓reduceIte]
      rw [hwinner] at hclaims
      have henters := Pass.Enters.own (.inr hstrategy) hread hclaims
      apply (hnext job s₂ hlike').bind
      rintro ⟨result, job'⟩ within s₃ hN
      cases result with
      | error e =>
        have hgoes := Pass.Goes.through henters hN
          (.kept hstage hstrategy (.inr ⟨e, rfl⟩) (.refl s₃)) (by rw [hhands, List.append_nil])
        exact Ends.pure ⟨.ended (.error e), rfl, by simpa using hgoes⟩
      | ok u =>
        apply (ends_letGo (hcalm job s₂ _ _ _ hlike' hN) _ job').bind
        rintro _ last s₄ hrelease
        have hrelease' : Calls p.caller { p.claimant with
          winner := some winner, baselines, latest } [.release] s₃ last s₄ := by
          rw [hwinner]
          exact hrelease
        have hgoes := Pass.Goes.through henters hN
          (.released hstage hstrategy hrelease'.of_told)
          (by rw [hhands, List.append_nil, hrelease.rescheduled])
        exact Ends.pure ⟨.ended (.ok ()), rfl, by simpa using hgoes⟩
    · simp only [hwinner, ↓reduceIte]
      apply (ends_emit _).bind
      rintro _ _ s₃ ⟨rfl, hquiet⟩
      have hflag : Calls p.caller p.claimant (p.flagWrites (p.claimant.window now)) s₂ [] s₃ := by
        rw [Pass.flagWrites_of_perform hstage]
        exact .rest hquiet
      rw [hlike.date?] at hwindow
      have hbarred := Pass.Barred.foreign (.inr hstrategy) hread hclaims hwinner hflag hwindow
      exact Ends.pure ⟨.barred winner, rfl, .barred (by simpa using hbarred)⟩

theorem ends_performUntilExecuted (hs : s.Calm) (hstage : p.caller.stage = .perform)
    (hstrategy : p.strategy = .untilExecuted) (hfresh : p.claimant.latest = none)
    (hnext : ∀ job s₁, s.Like s₁ → Ends limit (next job) s₁ (N job s₁))
    (hcalm : ∀ job s₁ r notes s₂, s.Like s₁ → N job s₁ r notes s₂ → s₂.Calm) :
    Ends limit (Passage.performUntilExecuted (host p.measure p.caller) p.claimant p.job next) s
      fun r notes s' ↦ ∃ o : Outcome, r.result = o.performed ∧ p.Goes N s o notes s' := by
  apply (ends_attachLatest hs hfresh p.job).bind
  rintro ⟨c, job⟩ notes s₁ ⟨⟨latest, rfl⟩, hattach⟩
  have hread : p.Reads s notes job s₁ := .perform hstage hattach
  have henters := Pass.Enters.unasked hstage hstrategy hread
  apply (hnext job s₁ hread.like).bind
  rintro ⟨result, job'⟩ within s₂ hN
  have hs₂ := hcalm job s₁ _ _ _ hread.like hN
  apply (ends_readFlag hs₂ _ job').bind
  rintro flagged first s₃ ⟨hflag, hfound⟩
  apply (ends_letGo (hflag.like.calm hs₂) _ job').bind
  rintro _ last s₄ hrelease
  have hafter : Calls p.caller { p.claimant with
      winner := p.claimant.winner, baselines := p.claimant.baselines, latest }
      (p.claimant.flagReads ++ [.release]) s₂ (first ++ last) s₄ := hflag.append hrelease
  have hgoes {s₅ : Site} (hstill : s₄.Still s₅) (hhands : s₅.rescheduled = s₂.rescheduled ++
      p.handedOver s₂ result job') := Pass.Goes.through henters hN
    (.cleared hstage hstrategy hafter.of_told hstill) hhands
  have hkept := hafter.rescheduled
  cases result with
  | error e =>
    have hnone := hgoes (.refl s₄) (by rw [p.handedOver_error, List.append_nil, hkept])
    exact Ends.pure ⟨.ended (.error e), rfl, by simpa using hnone⟩
  | ok u =>
    have hhands := Pass.handedOver_ok hstage hstrategy s₂ job'
    have hfound' : p.claimant.findsFlag s₂ = flagged := hfound.symm
    rw [hfound'] at hhands
    cases flagged with
    | false =>
      have hnone := hgoes (.refl s₄) (by rw [hhands, hkept]; simp)
      exact Ends.pure ⟨.ended (.ok ()), rfl, by simpa using hnone⟩
    | true =>
      apply (ends_runAgain job').bind
      rintro _ _ s₅ ⟨rfl, hstill, hagain⟩
      have hfresh : s₄.respawned job' = s₂.respawned job' := by
        rw [Site.respawned, Site.respawned, hafter.nextId]
      rw [hkept, hfresh] at hagain
      have hone := hgoes hstill (by rw [hhands, hagain]; rfl)
      exact Ends.pure ⟨.ended (.ok ()), rfl, by simpa using hone⟩

variable {settings : Settings} {measure : String → String → String → Except LsnError Int64}
  {caller : Caller}

theorem ends_strategyOf (c : Claimant) (hworker : c.worker = s.workers.get? c.workerName) :
    Ends limit ((gate settings measure caller).strategyOf c) s fun r notes s' ↦
      r = s.strategyFor c.workerName ∧ notes = [] ∧ s.Quiet s' := by
  have hswitch : Ends limit ((gate settings measure caller).isOn c.workerName) s
      fun r notes s' ↦ r = (!s.off.contains c.workerName) ∧ notes = [] ∧ s = s' :=
    Ends.unseen rfl ⟨rfl, rfl, rfl⟩
  apply hswitch.bind
  rintro on _ _ ⟨rfl, rfl, rfl⟩
  have hsame : Strategy.ofWorker c.worker (!s.off.contains c.workerName) =
      s.strategyFor c.workerName := by
    rw [hworker]
    rfl
  rw [Claimant.strategy]
  cases Strategy.passedOver? c.worker (!s.off.contains c.workerName) with
  | none => exact Ends.pure ⟨hsame, rfl, .refl s⟩
  | some name =>
    have hemit : Ends limit ((gate settings measure caller).host.emit (.passedOver name)) s
        fun _ notes s' ↦ notes = [] ∧ s.Quiet s' := ends_emit _
    apply hemit.bind
    rintro _ _ s' ⟨rfl, hquiet⟩
    exact Ends.pure ⟨hsame, rfl, hquiet⟩

/-- The strategy for a job is found with nothing done that matters to a call. -/
theorem ends_entered {α : Type} (job : Job) (stage : Stage)
    {f : Strategy → Claimant → Job → Journal α} {P : α → List Note → Site → Prop}
    (hf : ∀ s₁, s.Quiet s₁ → Ends limit (f (s.strategyFor job.worker)
      (Claimant.ofJob settings (s.workers.get? job.worker) job).1
      (Claimant.ofJob settings (s.workers.get? job.worker) job).2) s₁ P) :
    Ends limit (do
      let (c, job) ← (gate settings measure caller).claimant job
      let strategy ← (gate settings measure caller).strategyOf c
      (gate settings measure caller).host.emit (.entered stage job.id job.worker strategy)
      f strategy c job) s P := by
  have hclaimant : Ends limit ((gate settings measure caller).claimant job) s
      fun r notes s' ↦ r = Claimant.ofJob settings (s.workers.get? job.worker) job ∧
        notes = [] ∧ s = s' := by
    have hworker : Ends limit ((gate settings measure caller).worker? job.worker) s
        fun r notes s' ↦ r = s.workers.get? job.worker ∧ notes = [] ∧ s = s' :=
      Ends.unseen rfl ⟨rfl, rfl, rfl⟩
    apply hworker.bind
    rintro worker _ _ ⟨rfl, rfl, rfl⟩
    exact Ends.pure ⟨rfl, rfl, rfl⟩
  obtain ⟨hworker, hname, -⟩ := Claimant.ofJob_facts settings (s.workers.get? job.worker) job
  rcases hof : Claimant.ofJob settings (s.workers.get? job.worker) job with ⟨c, job'⟩
  rw [hof] at hclaimant hf hworker hname
  have hworker' : c.worker = s.workers.get? c.workerName := by rw [hworker, hname]
  apply hclaimant.bind
  rintro _ _ _ ⟨rfl, rfl, rfl⟩
  apply (ends_strategyOf c hworker').bind
  rintro strategy _ s₁ ⟨rfl, rfl, hquiet⟩
  have hemit (e : Event) : Ends limit ((gate settings measure caller).host.emit e) s₁
      fun _ notes s' ↦ notes = [] ∧ s₁.Quiet s' := ends_emit e
  apply (hemit _).bind
  rintro _ _ s₂ ⟨rfl, hquiet'⟩
  rw [hname]
  exact hf s₂ (hquiet.trans hquiet')

theorem ends_schedule (hs : s.Calm) (hlimit : s.wall ≤ limit) {job : Job}
    (hlocks : (s.strategyFor job.worker).locks = true) (hstage : caller.stage = .schedule)
    (hnext : ∀ job s₁, s.Like s₁ → Ends limit (next job) s₁ (N job s₁)) :
    Ends limit ((gate settings measure caller).schedule job next) s fun r notes s' ↦
      ∃ o : Outcome, r.1 = o.scheduled ∧ ∃ s₁, s.Quiet s₁ ∧
        (Pass.ofJob settings (s.strategyFor job.worker) measure caller
          (s.workers.get? job.worker) job).Goes N s₁ o notes s' := by
  refine @ends_entered limit s settings measure caller _ job .schedule (fun strategy c job ↦ do
    let p ← Passage.schedule (gate settings measure caller).host settings.policy strategy c job next
    pure (p.result, p.job)) _ ?_
  intro s₁ hquiet
  have hpass := @ends_scheduleLocked limit (Pass.ofJob settings (s.strategyFor job.worker) measure
    caller (s.workers.get? job.worker) job) s₁ next N (hquiet.like.calm hs)
    (Nat.le_trans (Nat.le_of_eq hquiet.wall) hlimit) hstage
    fun job s₂ hlike ↦ hnext job s₂ (hquiet.like.trans hlike)
  rw [Passage.schedule_of_locks hlocks]
  apply hpass.bind
  rintro p notes s' ⟨o, hr, hgoes⟩
  rw [← List.append_nil notes] at hgoes
  exact Ends.pure ⟨o, hr, s₁, hquiet, hgoes⟩

theorem ends_perform (hs : s.Calm) (hlimit : s.wall ≤ limit) {job : Job}
    (hlocks : (s.strategyFor job.worker).locks = true) (hstage : caller.stage = .perform)
    (hnext : ∀ job s₁, s.Like s₁ → Ends limit (next job) s₁ (N job s₁))
    (hcalm : ∀ job s₁ r notes s₂, s.Like s₁ → N job s₁ r notes s₂ → s₂.Calm) :
    Ends limit ((gate settings measure caller).perform job next) s fun r notes s' ↦
      ∃ o : Outcome, r.1 = o.performed ∧ ∃ s₁, s.Quiet s₁ ∧
        (Pass.ofJob settings (s.strategyFor job.worker) measure caller
          (s.workers.get? job.worker) job).Goes N s₁ o notes s' := by
  refine @ends_entered limit s settings measure caller _ job .perform (fun strategy c job ↦ do
    let p ← Passage.perform (gate settings measure caller).host settings.policy strategy c job next
    pure (p.result, p.job)) _ ?_
  intro s₁ hquiet
  have hfresh := (Claimant.ofJob_facts settings (s.workers.get? job.worker) job).2.2.2.2.2.2.1
  have hcalm' := hquiet.like.calm hs
  have hlimit' := Nat.le_trans (Nat.le_of_eq hquiet.wall) hlimit
  have hnext' job s₂ (hlike : s₁.Like s₂) := hnext job s₂ (hquiet.like.trans hlike)
  have hkeeps job s₂ r notes s₃ (hlike : s₁.Like s₂) :=
    hcalm job s₂ r notes s₃ (hquiet.like.trans hlike)
  generalize s.strategyFor job.worker = strategy at hlocks ⊢
  have hpass : Ends limit (Passage.perform (host measure caller) settings.policy strategy
      (Claimant.ofJob settings (s.workers.get? job.worker) job).1
      (Claimant.ofJob settings (s.workers.get? job.worker) job).2 next) s₁ fun r notes s' ↦
        ∃ o : Outcome, r.result = o.performed ∧ (Pass.ofJob settings strategy measure caller
          (s.workers.get? job.worker) job).Goes N s₁ o notes s' := by
    cases strategy with
    | never => cases hlocks
    | untilExecuting =>
      exact @ends_performUntilExecuting limit (Pass.ofJob settings .untilExecuting measure caller
        (s.workers.get? job.worker) job) s₁ next N hcalm' hlimit' hstage rfl hfresh hnext' hkeeps
    | untilExecuted =>
      exact @ends_performUntilExecuted limit (Pass.ofJob settings .untilExecuted measure caller
        (s.workers.get? job.worker) job) s₁ next N hcalm' hstage rfl hfresh hnext' hkeeps
  apply hpass.bind
  rintro p notes s' ⟨o, hr, hgoes⟩
  rw [← List.append_nil notes] at hgoes
  exact Ends.pure ⟨o, hr, s₁, hquiet, hgoes⟩

end Journal

end UniqueJobs
