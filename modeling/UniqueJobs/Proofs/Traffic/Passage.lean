import UniqueJobs.Proofs.Traffic.Host

/-!
Passages through the gate of a scene. The two strategies that lock differ in what a release may be
blamed on: `Answers.performUntilExecuted` and `Answers.performUntilExecuting`.
-/

namespace UniqueJobs

open Entries

namespace Answers

variable {strategy : Strategy} {k : JobKey} {worker : String}
  {measure : String → String → String → Except LsnError Int64} {caller : Caller} {c : Claimant}

section

variable {ε γ δ : Type} {next : Continuation Scene ε γ} {policy : OutagePolicy}

theorem pass (hnext : ∀ job, Answers strategy k worker (next job) fun _ ↦ True) (wrap : γ → δ)
    (c : Claimant) (job : Job) :
    Answers strategy k worker (Passage.pass next wrap c job) fun _ ↦ True := by
  apply (hnext job).bind
  intro ran _
  obtain ⟨r, job⟩ := ran
  cases r <;> exact .pure trivial

theorem afterFailedCheck (hnext : ∀ job, Answers strategy k worker (next job) fun _ ↦ True)
    (stage : Stage) (wrap : γ → δ) (c : Claimant) (job : Job) (e : ClaimError) :
    Answers strategy k worker (Passage.afterFailedCheck (Scene.host measure caller) stage policy
      next wrap c job e) fun _ ↦ True := by
  apply (emit _).bind
  intro _ _
  cases policy with
  | proceed => exact pass hnext wrap c job
  | refuse => exact .pure trivial

theorem scheduleLocked (hnext : ∀ job, Answers strategy k worker (next job) fun _ ↦ True)
    (locking : Strategy) (c : Claimant) (job : Job) :
    Answers strategy k worker (Passage.scheduleLocked (Scene.host measure caller) policy locking c
      job next) fun _ ↦ True := by
  by_cases hbypass : (c.runAt.isSome && !c.uniqueness.includingScheduled) = true
  · rw [Passage.scheduleLocked, if_pos hbypass]
    exact pass hnext _ c job
  rw [Passage.scheduleLocked, if_neg hbypass]
  apply now.bind
  intro now _
  apply (check c _).bind
  intro checked _
  obtain ⟨v, c'⟩ := checked
  cases v with
  | error e => exact afterFailedCheck hnext .schedule _ c' job e
  | ok winner =>
    apply (offerLocations c').bind
    intro offered _
    apply (note offered).bind
    intro _ _
    by_cases hwinner : winner = c'.id
    · simp only [hwinner, ↓reduceIte]
      exact pass hnext _ c' job
    · simp only [hwinner, ↓reduceIte]
      apply (setFlag c' _).bind
      intro flagged _
      apply (note flagged).bind
      intro _ _
      exact (emit _).bind fun _ _ ↦ .pure trivial

/-- A release is accounted for after `first` if its caller may be blamed. -/
theorem leads_letGo {s : Site} {first : List Glimpse} (hs : s.Honest)
    (hstrategy : s.strategyFor worker = strategy) (hfirst : Accounted strategy k first)
    (hblamed : ∀ g : Glimpse, g.caller = caller → g.before = s → ∀ holder expiry,
      g.Loses k holder expiry → Blamed strategy k holder first g) (c : Claimant) (job : Job) :
    Leads (Passage.letGo (Scene.host measure caller) c job) s fun _ trace s' ↦
      Linked s trace s' ∧ Accounted strategy k (first ++ trace) := by
  apply Leads.bind (Leads.of_does (Site.does_release (Scene.serves_host measure caller) c s))
  intro r trace s' h
  obtain ⟨calls, rfl, ⟨s₁, rfl, htouches, hr⟩, -, -⟩ := h
  have hsteady := htouches.toSteady.trans hr.toSteady
  have hnote : Answers strategy k worker (Passage.note (Scene.host measure caller)
      (.releaseFailed job.id job.worker) r) fun _ ↦ True := note r
  apply (hnote s' (hsteady.honest hs) ((hsteady.strategyFor worker).trans hstrategy)).imp
  intro u more s'' h
  obtain ⟨hlinked, haccounted, -⟩ := h
  refine ⟨.call (Site.Rests.refl s).drifts htouches.toSteady (hlinked.of_drifts hr.drifts), ?_⟩
  rw [← List.append_assoc]
  exact (hfirst.concat (hblamed _ rfl rfl)).append haccounted

/-- Under `untilExecuted` a performed instance releases whatever window there is. -/
theorem performUntilExecuted
    (hnext : ∀ job, Answers .untilExecuted k worker (next job) fun _ ↦ True)
    (hstage : caller.stage = .perform) (c : Claimant) (job : Job) :
    Answers .untilExecuted k worker (Passage.performUntilExecuted (Scene.host measure caller) c job
      next) fun _ ↦ True := by
  have hletGo (c : Claimant) (job : Job) : Answers .untilExecuted k worker
      (Passage.letGo (Scene.host measure caller) c job) fun _ ↦ True := by
    intro s hs hstrategy
    have hblamed : ∀ g : Glimpse, g.caller = caller → g.before = s → ∀ holder expiry,
        g.Loses k holder expiry → Blamed .untilExecuted k holder [] g := by
      intro g hg _ holder expiry _
      rw [← hg] at hstage
      exact ⟨hstage, .inr (.inl rfl)⟩
    apply (leads_letGo hs hstrategy .nil hblamed c job).imp
    intro u trace s' h
    exact ⟨h.1, h.2, trivial⟩
  apply (attachLatest c job).bind
  intro attached _
  obtain ⟨c', job⟩ := attached
  apply (hnext job).bind
  intro ran _
  obtain ⟨r, job⟩ := ran
  apply readFlag.bind
  intro flagged _
  apply (hletGo c' job).bind
  intro _ _
  cases r with
  | error e => exact .pure trivial
  | ok a =>
    cases flagged with
    | false => exact .pure trivial
    | true => exact runAgain.bind fun _ _ ↦ .pure trivial

/-- Once an instance has found the window to be its own, it may be blamed for a release. -/
theorem leads_held (hnext : ∀ job, Answers .untilExecuting k worker (next job) fun _ ↦ True)
    {check : Glimpse} {s : Site} {x : Option Instant} (hs : s.Honest)
    (hstrategy : s.strategyFor worker = .untilExecuting) (hstage : caller.stage = .perform)
    (hcheck : check.caller = caller) (hfirst : Accounted .untilExecuting k [check])
    (hheld : check.after.store.entries.live? check.after.clock k.text =
      some ⟨.text caller.id.text, x⟩) (hdrifts : check.after.Drifts s) (c : Claimant) (job : Job) :
    Leads (do
      let (result, job) ← next job
      match result with
      | .error e => Pure.pure (⟨.error (.job e), c, job⟩ :
          Passage (Except (Failure ε) (Performed γ)))
      | .ok a => do
        Passage.letGo (Scene.host measure caller) c job
        Pure.pure ⟨.ok (.executed a), c, job⟩) s fun _ trace s' ↦
      Linked s trace s' ∧ Accounted .untilExecuting k ([check] ++ trace) := by
  apply Leads.bind (hnext job s hs hstrategy)
  intro ran trace s₂ hran
  obtain ⟨r, job⟩ := ran
  obtain ⟨hrun, hinside, -⟩ := hran
  have htrace : Accounted .untilExecuting k ([check] ++ trace) := hfirst.append hinside
  cases r with
  | error e =>
    apply Leads.pure
    rw [List.append_nil]
    exact ⟨hrun, htrace⟩
  | ok a =>
    have hblamed : ∀ g : Glimpse, g.caller = caller → g.before = s₂ → ∀ holder expiry,
        g.Loses k holder expiry → Blamed .untilExecuting k holder ([check] ++ trace) g := by
      intro g hg hbefore holder expiry hloses
      subst hg hbefore
      exact blamed_of_held hstage hcheck hheld (hrun.of_drifts hdrifts) hloses
    apply Leads.bind (leads_letGo (hrun.honest hs)
      ((hrun.strategyFor worker).trans hstrategy) htrace hblamed c job)
    intro u more s₃ hmore
    obtain ⟨hlast, hall⟩ := hmore
    apply Leads.pure
    rw [List.append_nil]
    rw [List.append_assoc] at hall
    exact ⟨hrun.append hlast, hall⟩

/-- Under `untilExecuting` an instance releases after it found the window to be its own. -/
theorem performUntilExecuting
    (hnext : ∀ job, Answers .untilExecuting k worker (next job) fun _ ↦ True)
    (hstage : caller.stage = .perform) (hcaller : caller.id = c.id) (hkey : c.key = k) (job : Job) :
    Answers .untilExecuting k worker (Passage.performUntilExecuting (Scene.host measure caller)
      policy c job next) fun _ ↦ True := by
  apply (attachLatest c job).bind
  intro attached hattached
  obtain ⟨c', job⟩ := attached
  obtain ⟨hid, hkey'⟩ := hattached
  apply now.bind
  intro now _ s hs hstrategy
  apply Leads.bind (Leads.of_does
    (Site.does_check (Scene.serves_host measure caller) hs (c'.window now)))
  intro checked trace s' h
  obtain ⟨v, c''⟩ := checked
  obtain ⟨calls, rfl, ⟨s₁, rfl, htouches, hr⟩, hchecked, -⟩ := h
  have hsteady := htouches.toSteady.trans hr.toSteady
  have hs' := hsteady.honest hs
  have hstrategy' := (hsteady.strategyFor worker).trans hstrategy
  have hlinked : Linked s [⟨caller, s, s₁⟩] s' :=
    .call (Site.Rests.refl s).drifts htouches.toSteady (.rest hr.drifts)
  have hkeeps := (Site.Course.one htouches (.refl s₁)).keepsTexts (by simp)
  have haccounted : Accounted .untilExecuting k [⟨caller, s, s₁⟩] :=
    .of_keepsTexts htouches.toSteady hkeeps
  cases hchecked with
  | failed e =>
    apply (afterFailedCheck hnext .perform _ c' job e s' hs' hstrategy').imp
    intro p more s'' hp
    obtain ⟨hmore, hlast, -⟩ := hp
    exact ⟨hlinked.append hmore, haccounted.append hlast, trivial⟩
  | answered winner baselines hentries hwinner hbaselines =>
    by_cases hown : winner = c'.id
    · simp only [hown, ↓reduceIte]
      subst hown
      obtain ⟨x, hheld⟩ := exists_live?_of_text? hwinner
      rw [hr.entries, hkey', hkey, hid, ← hcaller, ← htouches.clock] at hheld
      apply (leads_held hnext hs' hstrategy' hstage rfl haccounted hheld hr.drifts _ job).imp
      intro p more s'' hp
      exact ⟨hlinked.append hp.1, hp.2, trivial⟩
    · have hskip (p : Passage (Except (Failure ε) (Performed γ))) (e : Event) :
          Answers .untilExecuting k worker
            (do (Scene.host measure caller).emit e; Pure.pure p) fun _ ↦ True :=
        (emit e).bind fun _ _ ↦ .pure trivial
      simp only [hown, ↓reduceIte]
      apply (hskip _ _ s' hs' hstrategy').imp
      intro p more s'' hp
      obtain ⟨hmore, hlast, -⟩ := hp
      exact ⟨hlinked.append hmore, haccounted.append hlast, trivial⟩

theorem perform (hnext : ∀ job, Answers strategy k worker (next job) fun _ ↦ True)
    (hstage : caller.stage = .perform) (hcaller : caller.id = c.id) (hkey : c.key = k) (job : Job) :
    Answers strategy k worker (Passage.perform (Scene.host measure caller) policy strategy c job
      next) fun _ ↦ True := by
  cases strategy with
  | untilExecuting => exact performUntilExecuting hnext hstage hcaller hkey job
  | untilExecuted => exact performUntilExecuted hnext hstage c job
  | never => exact pass hnext _ c job

theorem schedule (hnext : ∀ job, Answers strategy k worker (next job) fun _ ↦ True)
    (c : Claimant) (job : Job) :
    Answers strategy k worker (Passage.schedule (Scene.host measure caller) policy strategy c job
      next) fun _ ↦ True := by
  cases strategy with
  | untilExecuting | untilExecuted => exact scheduleLocked hnext _ c job
  | never => exact pass hnext _ c job

end

end Answers

namespace Scene

variable {settings : Settings} {measure : String → String → String → Except LsnError Int64}
  {caller : Caller} {strategy : Strategy} {k : JobKey} {worker : String}

theorem leads_claimant (job : Job) (s : Site) :
    Leads ((gate settings measure caller).claimant job) s fun r trace s' ↦
      (s = s' ∧ trace = []) ∧ r.1.worker = s.workers.get? job.worker ∧
        r.1.workerName = job.worker ∧ r.1.id = job.id ∧
          r.1.key = (job.identify settings.keyspace).1 := by
  have hworker : Leads ((gate settings measure caller).worker? job.worker) s
      fun r trace s' ↦ (s = s' ∧ trace = []) ∧ r = s.workers.get? job.worker := by
    apply Leads.unseen
    intro a s' h
    obtain ⟨rfl, rfl⟩ := Prod.mk.inj (Option.some.inj h)
    exact ⟨⟨rfl, rfl⟩, rfl⟩
  apply hworker.bind
  intro found trace s' h
  obtain ⟨⟨rfl, rfl⟩, rfl⟩ := h
  refine Leads.pure ⟨⟨rfl, rfl⟩, ?_⟩
  rw [gate, Claimant.ofJob, Job.identify]
  cases job.key <;> exact ⟨rfl, rfl, rfl, rfl⟩

theorem leads_strategyOf {c : Claimant} {s : Site} (hs : s.Honest)
    (hstrategy : s.strategyFor c.workerName = strategy)
    (hworker : c.worker = s.workers.get? c.workerName) :
    Leads ((gate settings measure caller).strategyOf c) s fun r trace s' ↦
      Linked s trace s' ∧ Accounted strategy k trace ∧ r = strategy := by
  have hswitch : Leads ((gate settings measure caller).isOn c.workerName) s
      fun r trace s' ↦ s = s' ∧ trace = [] ∧ r = !s.off.contains c.workerName := by
    apply Leads.unseen
    intro a s' h
    obtain ⟨rfl, rfl⟩ := Prod.mk.inj (Option.some.inj h)
    exact ⟨rfl, rfl, rfl⟩
  apply hswitch.bind
  intro on trace s' h
  obtain ⟨rfl, rfl, hon⟩ := h
  have hsame : Strategy.ofWorker c.worker on = strategy := by
    rw [hworker, hon, ← hstrategy]
    rfl
  rw [Claimant.strategy]
  cases Strategy.passedOver? c.worker on with
  | none => exact Leads.pure ⟨.rest (Site.Rests.refl s).drifts, .nil, hsame⟩
  | some name =>
    have hemit : Answers strategy k c.workerName (do
        (host measure caller).emit (.passedOver name)
        pure (Strategy.ofWorker c.worker on)) fun r ↦ r = strategy :=
      (Answers.emit _).bind fun _ _ ↦ .pure hsame
    exact hemit s hs hstrategy

theorem answers_entered {ρ : Type} {job : Job} {f : Strategy → Claimant → Job → Scene ρ}
    (hworker : job.worker = worker) (hkey : (job.identify settings.keyspace).1 = k)
    (hf : ∀ c job', c.id = job.id → c.key = k →
      Answers strategy k worker (f strategy c job') fun _ ↦ True) :
    Answers strategy k worker (do
      let (c, job) ← (gate settings measure caller).claimant job
      let strategy ← (gate settings measure caller).strategyOf c
      f strategy c job) fun _ ↦ True := by
  intro s hs hstrategy
  apply Leads.bind (leads_claimant job s)
  intro entered trace s' h
  obtain ⟨c, job'⟩ := entered
  obtain ⟨⟨rfl, rfl⟩, hfound, hname, hid, hc⟩ := h
  simp only at hfound hname hid hc
  rw [← hname] at hfound
  have hstrategy' : s.strategyFor c.workerName = strategy := by rw [hname, hworker, hstrategy]
  apply Leads.bind (leads_strategyOf (k := k) hs hstrategy' hfound)
  intro r trace s₁ h
  obtain ⟨hlinked, haccounted, rfl⟩ := h
  apply (hf c job' hid (hc.trans hkey) s₁ (hlinked.honest hs)
    ((hlinked.strategyFor worker).trans hstrategy)).imp
  intro p more s₂ hp
  obtain ⟨hlinked', haccounted', -⟩ := hp
  exact ⟨hlinked.append hlinked', haccounted.append haccounted', trivial⟩

variable {ε γ : Type} {next : Continuation Scene ε γ}

theorem answers_schedule (hnext : ∀ job, Answers strategy k worker (next job) fun _ ↦ True)
    {job : Job} (hworker : job.worker = worker) (hkey : (job.identify settings.keyspace).1 = k) :
    Answers strategy k worker ((gate settings measure caller).schedule job next)
      fun _ ↦ True := by
  refine answers_entered (f := fun strategy c job ↦ do
    (gate settings measure caller).host.emit (.entered .schedule job.id job.worker strategy)
    let p ← Passage.schedule (gate settings measure caller).host settings.policy strategy c job next
    pure (p.result, p.job)) hworker hkey ?_
  intro c job' hid hc
  apply (Answers.emit _).bind
  intro _ _
  exact (Answers.schedule hnext c job').bind fun _ _ ↦ .pure trivial

theorem answers_perform (hnext : ∀ job, Answers strategy k worker (next job) fun _ ↦ True)
    {job : Job} (hstage : caller.stage = .perform) (hcaller : caller.id = job.id)
    (hworker : job.worker = worker) (hkey : (job.identify settings.keyspace).1 = k) :
    Answers strategy k worker ((gate settings measure caller).perform job next)
      fun _ ↦ True := by
  refine answers_entered (f := fun strategy c job ↦ do
    (gate settings measure caller).host.emit (.entered .perform job.id job.worker strategy)
    let p ← Passage.perform (gate settings measure caller).host settings.policy strategy c job next
    pure (p.result, p.job)) hworker hkey ?_
  intro c job' hid hc
  apply (Answers.emit _).bind
  intro _ _
  apply (Answers.perform hnext hstage (hcaller.trans hid.symm) hc job').bind
  exact fun _ _ ↦ .pure trivial

end Scene

end UniqueJobs
