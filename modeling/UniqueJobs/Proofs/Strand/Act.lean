import UniqueJobs.Proofs.Journal.Flag
import UniqueJobs.Proofs.Strand.Basic

/-!
What schedules and performances ask, step by step. Main statements: `meets_schedule`, that a dropped
instance has set the flag and releases nothing, and `meets_perform`, that a performance reads the flag,
then releases the records, and then hands the job over if it found the flag.
-/

namespace UniqueJobs

/-- Is what is asked of the store one of some contacts on a key? -/
def Ask.Touches (k : JobKey) (C : Contact → Prop) : Ask → Prop
  | .store call => ∃ (c : Claimant) (contact : Contact), c.key = k ∧ C contact ∧
    call = contact.call c
  | _ => True

abbrev Ask.Spares (k : JobKey) : Ask → Prop := Ask.Touches k (· ≠ .release)

theorem Ask.Touches.mono {k : JobKey} {C C' : Contact → Prop} (h : ∀ contact, C contact → C' contact)
    {q : Ask} (hq : q.Touches k C) : q.Touches k C' := by
  cases q with
  | store call =>
    obtain ⟨c, contact, hkey, hC, hcall⟩ := hq
    exact ⟨c, contact, hkey, h contact hC, hcall⟩
  | now | emit | freshId | again | worker? | isOn => trivial

/-- Is it what the site has to say of its workers? -/
def Site.Tells (s : Site) : Exchange → Prop
  | ⟨.worker? name, answer⟩ => answer = s.workers.get? name
  | ⟨.isOn name, answer⟩ => answer = !s.off.contains name
  | _ => True

namespace Strand

variable {s : Site} {k : JobKey} {measure : String → String → String → Except LsnError Int64}
  {c : Claimant} {C : Contact → Prop}

/-- A strand that leaves the records as they are may be part of one that does not. -/
theorem Meets.spared {α : Type} {x : Strand α} {Q : α → List Exchange → Prop}
    (h : x.Meets s.Tells (Ask.Spares k) Q) (hC : ∀ contact, contact ≠ .release → C contact) :
    x.Meets s.Tells (Ask.Touches k C) fun a new ↦ Q a new ∧ ∀ e ∈ new, e.ask.Spares k :=
  h.asked.imp (fun _ hq ↦ hq.mono hC) fun _ _ ↦ id

theorem meets_emit (e : Event) :
    ((host measure).emit e).Meets s.Tells (Ask.Touches k C) fun _ new ↦
      new = [⟨.emit e, ()⟩] := .request trivial fun _ _ ↦ rfl

theorem meets_note (event : ClaimError → Event) (r : Except ClaimError Unit) :
    (Passage.note (host measure) event r).Meets s.Tells (Ask.Touches k C) fun _ new ↦
      ∀ e ∈ new, ∃ event, e = ⟨.emit event, ()⟩ := by
  cases r with
  | ok u => exact Meets.pure (by simp)
  | error e => exact (meets_emit _).post fun _ new h ↦ by simp [h]

theorem meets_check (hkey : c.key = k) (window : Duration) :
    (c.check (host measure).store (host measure).emit window).Meets s.Tells (Ask.Spares k)
      fun r _ ↦ ∃ winner baselines, r.2 = { c with winner, baselines } := by
  have hbatch : ((host measure).store.batch (c.claimRequests window)).Meets s.Tells (Ask.Spares k)
      fun _ _ ↦ True := .request ⟨c, .claim window, hkey, by simp, rfl⟩ fun _ _ ↦ trivial
  apply hbatch.bind
  intro answer _ _
  cases answer with
  | error e => exact Meets.pure ⟨_, _, rfl⟩
  | ok replies =>
    cases hread : c.readClaim replies with
    | error e =>
      simp only [hread]
      exact Meets.pure ⟨_, _, rfl⟩
    | ok found =>
      simp only [hread]
      exact (meets_emit _).bind fun _ _ _ ↦ Meets.pure ⟨_, _, rfl⟩

theorem meets_offerLocations (hkey : c.key = k) :
    (c.offerLocations (host measure).store (host measure).distance).Meets s.Tells (Ask.Spares k)
      fun _ _ ↦ True := by
  have hoffer (locations : List (String × String)) :
      (c.offer (host measure).store (host measure).distance locations).Meets s.Tells (Ask.Spares k)
        fun _ _ ↦ True := by
    induction locations with
    | nil => exact Meets.pure trivial
    | cons head rest ih =>
      obtain ⟨config, location⟩ := head
      have hdistance : (host measure).distance config location
          ((c.baselines.get? config).getD location) =
            pure (measure config location ((c.baselines.get? config).getD location)) := rfl
      rw [Claimant.offer, hdistance]
      cases measure config location ((c.baselines.get? config).getD location) with
      | error e => exact Meets.pure trivial
      | ok offset =>
        have hrun : ((host measure).store.run .advance [c.key.latest config, c.key.configs]
            [location, toString offset.toInt, toString c.settings.latestTtl.millis, config]).Meets
              s.Tells (Ask.Spares k) fun _ _ ↦ True :=
          .request ⟨c, .advance config location offset, hkey, by simp, rfl⟩ fun _ _ ↦ trivial
        apply hrun.bind
        intro answer _ _
        cases answer with
        | error e => exact Meets.pure trivial
        | ok u => exact ih
  rw [Claimant.offerLocations]
  split
  · exact Meets.pure trivial
  · split
    · exact Meets.pure trivial
    · exact hoffer _

theorem meets_setFlag (hkey : c.key = k) (hagain : c.runsAgain = true) (ttl : Duration) :
    (c.setFlag (host measure).store ttl).Meets s.Tells (Ask.Spares k) fun _ new ↦
      ∃ answer, ⟨.store (.setIfAbsent k.flag "1" ttl), answer⟩ ∈ new := by
  subst hkey
  have hset : ((host measure).store.setIfAbsent c.key.flag "1" ttl).Meets s.Tells
      (Ask.Spares c.key) fun answer new ↦
        new = [⟨.store (.setIfAbsent c.key.flag "1" ttl), answer⟩] :=
    .request ⟨c, .setFlag ttl, rfl, by simp, rfl⟩ fun _ _ ↦ rfl
  rw [Claimant.setFlag, if_pos hagain]
  apply hset.bind
  rintro answer new rfl
  cases answer with
  | error e => exact Meets.pure ⟨.error e, by simp⟩
  | ok written => exact Meets.pure ⟨.ok written, by simp⟩

variable {finish : Job → Except String Unit × Job}

theorem meets_pass (c : Claimant) (job : Job) :
    (Passage.pass (fun job ↦ pure (finish job)) Scheduled.enqueued c job : Strand _).Meets s.Tells
      (Ask.Touches k C) fun p _ ↦ ∀ winner, p.result ≠ .ok (.dropped winner) := by
  have hnext : (pure (finish job) : Strand _).Meets s.Tells (Ask.Touches k C) fun r _ ↦
      r = finish job := Meets.pure rfl
  apply hnext.bind
  rintro ⟨result, job'⟩ _ _
  cases result with
  | ok u => exact Meets.pure (by rintro _ ⟨⟩)
  | error e => exact Meets.pure (by rintro _ ⟨⟩)

/-- An instance that is dropped has set the flag, and the records are left as they are. -/
theorem meets_scheduleLocked (hkey : c.key = k) (hagain : c.runsAgain = true)
    (policy : OutagePolicy) (strategy : Strategy) (job : Job) :
    (Passage.scheduleLocked (host measure) policy strategy c job
      fun job ↦ pure (finish job)).Meets s.Tells (Ask.Spares k) fun p new ↦ ∀ winner,
        p.result = .ok (.dropped winner) →
          ∃ ttl answer, ⟨.store (.setIfAbsent k.flag "1" ttl), answer⟩ ∈ new := by
  rw [Passage.scheduleLocked]
  split
  · exact (meets_pass c job).post fun p _ h winner hdropped ↦ absurd hdropped (h winner)
  have hnow : (host measure).now.Meets s.Tells (Ask.Spares k) fun _ _ ↦ True :=
    .request trivial fun _ _ ↦ trivial
  apply hnow.bind
  intro now _ _
  apply (meets_check hkey _).bind
  rintro ⟨checked, c'⟩ _ ⟨winner, baselines, rfl⟩
  cases checked with
  | error e =>
    apply (meets_emit _).bind
    intro _ _ _
    cases policy with
    | proceed => exact (meets_pass _ job).post fun p _ h winner hdropped ↦ absurd hdropped (h winner)
    | refuse => exact Meets.pure (by rintro _ ⟨⟩)
  | ok winner' =>
    apply (meets_offerLocations (c := { c with winner, baselines }) hkey).bind
    intro offered _ _
    apply (meets_note _ offered).bind
    intro _ _ _
    split
    · exact (meets_pass _ job).post fun p _ h winner hdropped ↦ absurd hdropped (h winner)
    · apply (meets_setFlag (c := { c with winner, baselines }) hkey hagain _).bind
      rintro flagged new ⟨answer, hset⟩
      apply (meets_note _ flagged).bind
      intro _ _ _
      apply (meets_emit _).bind
      intro _ _ _
      exact Meets.pure fun _ _ ↦ ⟨_, answer, by simp [hset]⟩

theorem meets_attachLatest (hkey : c.key = k) (job : Job) :
    (Passage.attachLatest (host measure) c job).Meets s.Tells (Ask.Spares k) fun r _ ↦
      ∃ latest, r.1 = { c with latest } := by
  have hread : (c.readLatest (host measure).store).Meets s.Tells (Ask.Spares k) fun r _ ↦
      ∃ latest, r.2 = { c with latest } := by
    rw [Claimant.readLatest]
    cases hlatest : c.latest with
    | some latest => exact Meets.pure ⟨c.latest, rfl⟩
    | none =>
      by_cases hempty : c.locations.isEmpty = true
      · simp only [hempty, ↓reduceIte]
        exact Meets.pure ⟨_, rfl⟩
      · simp only [hempty, Bool.false_eq_true, ↓reduceIte]
        have hbatch : ((host measure).store.batch c.latestReads).Meets s.Tells (Ask.Spares k)
            fun _ _ ↦ True := .request ⟨c, .readLatest, hkey, by simp, rfl⟩ fun _ _ ↦ trivial
        apply hbatch.bind
        intro answer _ _
        cases answer with
        | error e => exact Meets.pure ⟨c.latest, rfl⟩
        | ok replies =>
          cases hpairs : Claimant.pairValues c.locations.keys replies with
          | error e =>
            simp only [hpairs]
            exact Meets.pure ⟨c.latest, rfl⟩
          | ok latest =>
            simp only [hpairs]
            exact Meets.pure ⟨_, rfl⟩
  apply hread.bind
  rintro ⟨answer, c'⟩ _ hc
  cases answer with
  | ok latest => exact Meets.pure hc
  | error e => exact (meets_emit _).bind fun _ _ _ ↦ Meets.pure hc

/-- The flag is asked for first, and it is found where the answer is a text. -/
theorem meets_readFlag (hkey : c.key = k) (hagain : c.runsAgain = true) (job : Job) :
    (Passage.readFlag (host measure) c job).Meets s.Tells (Ask.Spares k) fun flagged new ↦
      ∃ answer more, new = ⟨.store (.get k.flag), answer⟩ :: more ∧
        ∀ text, answer = .ok (some text) → flagged = true := by
  subst hkey
  have hget : ((host measure).store.get c.key.flag).Meets s.Tells (Ask.Spares c.key)
      fun answer new ↦ new = [⟨.store (.get c.key.flag), answer⟩] :=
    .request ⟨c, .readFlag, rfl, by simp, rfl⟩ fun _ _ ↦ rfl
  have hflagged : (c.flagged (host measure).store).Meets s.Tells (Ask.Spares c.key) fun r new ↦
      ∃ answer, new = [⟨.store (.get c.key.flag), answer⟩] ∧
        ∀ text, answer = .ok (some text) → r = .ok true := by
    rw [Claimant.flagged, if_pos hagain]
    apply hget.bind
    rintro answer new rfl
    cases answer with
    | error e => exact Meets.pure ⟨.error e, rfl, by rintro _ ⟨⟩⟩
    | ok v =>
      refine Meets.pure ⟨.ok v, rfl, ?_⟩
      rintro text ⟨⟩
      rfl
  apply hflagged.bind
  rintro r new ⟨answer, rfl, hfound⟩
  cases r with
  | ok flagged => exact Meets.pure ⟨answer, [], rfl, fun text h ↦ Except.ok.inj (hfound text h)⟩
  | error e =>
    apply (meets_emit _).bind
    rintro _ _ rfl
    refine Meets.pure ⟨answer, _, rfl, ?_⟩
    intro text h
    cases hfound text h

theorem meets_letGo (hkey : c.key = k) (job : Job) :
    (Passage.letGo (host measure) c job).Meets s.Tells (Ask.Touches k fun _ ↦ True) fun _ new ↦
      ∃ keys answer more, new =
          ⟨.store (.run .release [k.text, k.flag, k.configs] keys), answer⟩ :: more ∧
        ∀ e ∈ more, e.ask.Spares k := by
  subst hkey
  have hrun : ((host measure).store.run .release [c.key.text, c.key.flag, c.key.configs]
      c.locations.keys).Meets s.Tells (Ask.Touches c.key fun _ ↦ True) fun answer new ↦ new =
        [⟨.store (.run .release [c.key.text, c.key.flag, c.key.configs] c.locations.keys), answer⟩] :=
    .request ⟨c, .release, rfl, trivial, rfl⟩ fun _ _ ↦ rfl
  have hrelease : (c.release (host measure).store (host measure).emit).Meets s.Tells
      (Ask.Touches c.key fun _ ↦ True) fun _ new ↦ ∃ answer more, new = ⟨.store (.run .release
        [c.key.text, c.key.flag, c.key.configs] c.locations.keys), answer⟩ :: more ∧
          ∀ e ∈ more, e.ask.Spares c.key := by
    apply hrun.bind
    rintro answer new rfl
    cases answer with
    | error e => exact Meets.pure ⟨.error e, [], rfl, by simp⟩
    | ok u =>
      apply (meets_emit _).bind
      rintro _ _ rfl
      exact Meets.pure ⟨.ok u, _, rfl, by simp [Ask.Touches]⟩
  apply hrelease.bind
  rintro r new ⟨answer, more, rfl, hmore⟩
  apply (meets_note _ r).post
  intro _ last hlast
  refine ⟨_, answer, more ++ last, rfl, List.forall_mem_append.mpr ⟨hmore, ?_⟩⟩
  intro e he
  obtain ⟨event, rfl⟩ := hlast e he
  trivial

theorem meets_runAgain (job : Job) :
    (Passage.runAgain (host measure) job).Meets s.Tells (Ask.Spares k) fun _ new ↦
      ∃ job answer, ⟨.again job, answer⟩ ∈ new := by
  have hfresh : (host measure).freshId.Meets s.Tells (Ask.Spares k) fun _ _ ↦ True :=
    .request trivial fun _ _ ↦ trivial
  apply hfresh.bind
  intro id _ _
  have hagain : (request (.again (job.respawn id))).Meets s.Tells (Ask.Spares k)
      fun answer new ↦ new = [⟨.again (job.respawn id), answer⟩] :=
    .request trivial fun _ _ ↦ rfl
  apply hagain.bind
  rintro answer _ rfl
  cases answer with
  | ok u => exact (meets_emit _).post fun _ _ _ ↦ ⟨job.respawn id, .ok u, by simp⟩
  | error reason => exact (meets_emit _).post fun _ _ _ ↦ ⟨job.respawn id, .error reason, by simp⟩

/-- What a performance asks that comes to its end: for the flag, then for the release of the records,
and if the flag was found for the job to be run again. -/
def Rounds (k : JobKey) (new : List Exchange) : Prop :=
  ∃ first found mid keys released last, new = first ++ ⟨.store (.get k.flag), found⟩ ::
      (mid ++ ⟨.store (.run .release [k.text, k.flag, k.configs] keys), released⟩ :: last) ∧
    (∀ e ∈ first ++ mid ++ last, e.ask.Spares k) ∧
    ∀ text, found = .ok (some text) → ∃ job answer, ⟨.again job, answer⟩ ∈ last

theorem meets_performUntilExecuted (hkey : c.key = k) (hagain : c.runsAgain = true) (job : Job) :
    (Passage.performUntilExecuted (host measure) c job fun job ↦ pure (finish job)).Meets s.Tells
      (Ask.Touches k fun _ ↦ True) fun p new ↦ (∃ u, p.result = .ok (.executed u)) →
        Rounds k new := by
  apply ((meets_attachLatest hkey job).spared fun _ _ ↦ trivial).bind
  rintro ⟨c', job'⟩ first ⟨⟨latest, rfl⟩, hfirst⟩
  have hnext : (pure (finish job') : Strand _).Meets s.Tells (Ask.Touches k fun _ ↦ True)
      fun _ new ↦ new = [] := Meets.pure rfl
  apply hnext.bind
  rintro ⟨result, job''⟩ _ rfl
  apply ((meets_readFlag (c := { c with latest }) hkey hagain job'').spared fun _ _ ↦ trivial).bind
  rintro flagged _ ⟨⟨found, mid, rfl, hfound⟩, hmid⟩
  apply (meets_letGo (c := { c with latest }) hkey job'').bind
  rintro _ _ ⟨keys, released, more, rfl, hmore⟩
  have hmid' := (List.forall_mem_cons.mp hmid).2
  cases result with
  | error e => exact Meets.pure (by rintro ⟨_, ⟨⟩⟩)
  | ok u =>
    cases flagged with
    | false =>
      refine Meets.pure fun _ ↦ ⟨first, found, mid, keys, released, more, by simp, ?_, ?_⟩
      · simp only [List.forall_mem_append]
        exact ⟨⟨hfirst, hmid'⟩, hmore⟩
      · intro text h
        cases hfound text h
    | true =>
      apply ((meets_runAgain job'').spared fun _ _ ↦ trivial).bind
      rintro _ last ⟨⟨again, answer, hlast⟩, hspared⟩
      refine Meets.pure fun _ ↦ ⟨first, found, mid, keys, released, more ++ last, by simp, ?_, ?_⟩
      · simp only [List.forall_mem_append]
        exact ⟨⟨hfirst, hmid'⟩, hmore, hspared⟩
      · exact fun _ _ ↦ ⟨again, answer, List.mem_append_right _ hlast⟩

variable {settings : Settings}

theorem meets_strategyOf (c : Claimant) (hworker : c.worker = s.workers.get? c.workerName) :
    ((gate settings measure).strategyOf c).Meets s.Tells (Ask.Spares k) fun r _ ↦
      r = s.strategyFor c.workerName := by
  have hswitch : ((gate settings measure).isOn c.workerName).Meets s.Tells (Ask.Spares k)
      fun r _ ↦ r = !s.off.contains c.workerName := .request trivial fun _ h ↦ h
  apply hswitch.bind
  rintro _ _ rfl
  have hsame : Strategy.ofWorker c.worker (!s.off.contains c.workerName) =
      s.strategyFor c.workerName := by
    rw [hworker]
    rfl
  rw [Claimant.strategy]
  cases Strategy.passedOver? c.worker (!s.off.contains c.workerName) with
  | none => exact Meets.pure hsame
  | some name => exact (meets_emit _).bind fun _ _ _ ↦ Meets.pure hsame

/-- What comes before the passage of a job leaves the records as they are. -/
theorem meets_entered {α : Type} (job : Job) (stage : Stage) {f : Strategy → Claimant → Job → Strand α}
    {Q : α → List Exchange → Prop}
    (hf : (f (s.strategyFor job.worker)
      (Claimant.ofJob settings (s.workers.get? job.worker) job).1
      (Claimant.ofJob settings (s.workers.get? job.worker) job).2).Meets s.Tells
        (Ask.Touches k C) Q) (hC : ∀ contact, contact ≠ .release → C contact) :
    (do
      let (c, job) ← (gate settings measure).claimant job
      let strategy ← (gate settings measure).strategyOf c
      (gate settings measure).host.emit (.entered stage job.id job.worker strategy)
      f strategy c job).Meets s.Tells (Ask.Touches k C) fun a new ↦
        ∃ first last, new = first ++ last ∧ (∀ e ∈ first, e.ask.Spares k) ∧ Q a last := by
  have hclaimant : ((gate settings measure).claimant job).Meets s.Tells (Ask.Spares k)
      fun r _ ↦ r = Claimant.ofJob settings (s.workers.get? job.worker) job := by
    have hworker : ((gate settings measure).worker? job.worker).Meets s.Tells (Ask.Spares k)
        fun r _ ↦ r = s.workers.get? job.worker := .request trivial fun _ h ↦ h
    apply hworker.bind
    rintro worker _ rfl
    exact Meets.pure rfl
  obtain ⟨hworker, hname, -⟩ := Claimant.ofJob_facts settings (s.workers.get? job.worker) job
  rcases hof : Claimant.ofJob settings (s.workers.get? job.worker) job with ⟨c, job'⟩
  rw [hof] at hclaimant hf hworker hname
  have hworker' : c.worker = s.workers.get? c.workerName := by rw [hworker, hname]
  apply (hclaimant.spared hC).bind
  rintro _ first ⟨rfl, hfirst⟩
  apply ((meets_strategyOf c hworker').spared hC).bind
  rintro strategy second ⟨rfl, hsecond⟩
  apply ((meets_emit _).spared hC).bind
  rintro _ third ⟨-, hthird⟩
  rw [hname]
  refine hf.post fun a last hlast ↦ ⟨first ++ second ++ third, last, by simp, ?_, hlast⟩
  simp only [List.forall_mem_append]
  exact ⟨⟨hfirst, hsecond⟩, hthird⟩

section

variable {job : Job}

theorem meets_schedule (hstrategy : s.strategyFor job.worker = .untilExecuted)
    (hagain : s.RunsAgain job.worker) (hkey : (job.identify settings.keyspace).1 = k) :
    ((gate settings measure).schedule job fun job ↦ pure (finish job)).Meets s.Tells (Ask.Spares k)
      fun r new ↦ ∀ winner, r.1 = .ok (.dropped winner) →
        ∃ ttl answer, ⟨.store (.setIfAbsent k.flag "1" ttl), answer⟩ ∈ new := by
  have hkey' := (Claimant.ofJob_facts settings (s.workers.get? job.worker) job).2.2.2.1.trans hkey
  let f (strategy : Strategy) (c : Claimant) (job : Job) :
      Strand (Except (Failure String) (Scheduled Unit) × Job) := do
    let p ← Passage.schedule (host measure) settings.policy strategy c job fun job ↦
      pure (finish job)
    pure (p.result, p.job)
  have hpassage : (f (s.strategyFor job.worker)
      (Claimant.ofJob settings (s.workers.get? job.worker) job).1
      (Claimant.ofJob settings (s.workers.get? job.worker) job).2).Meets s.Tells (Ask.Spares k)
        fun r new ↦ ∀ winner, r.1 = .ok (.dropped winner) →
          ∃ ttl answer, ⟨.store (.setIfAbsent k.flag "1" ttl), answer⟩ ∈ new := by
    rw [hstrategy]
    apply (meets_scheduleLocked hkey' (Claimant.runsAgain_ofJob hagain) ..).bind
    intro p new h
    exact Meets.pure (by simpa using h)
  apply (meets_entered job .schedule hpassage fun _ h ↦ h).post
  rintro r _ ⟨first, last, rfl, -, h⟩ winner hdropped
  obtain ⟨ttl, answer, hset⟩ := h winner hdropped
  exact ⟨ttl, answer, List.mem_append_right _ hset⟩

theorem Rounds.prepend {first last : List Exchange} (hfirst : ∀ e ∈ first, e.ask.Spares k)
    (h : Rounds k last) : Rounds k (first ++ last) := by
  obtain ⟨before, found, mid, keys, released, after, rfl, hspared, hagain⟩ := h
  refine ⟨first ++ before, found, mid, keys, released, after, by simp, ?_, hagain⟩
  simp only [List.forall_mem_append] at hspared ⊢
  exact ⟨⟨⟨hfirst, hspared.1.1⟩, hspared.1.2⟩, hspared.2⟩

theorem meets_perform (hstrategy : s.strategyFor job.worker = .untilExecuted)
    (hagain : s.RunsAgain job.worker) (hkey : (job.identify settings.keyspace).1 = k) :
    ((gate settings measure).perform job fun job ↦ pure (finish job)).Meets s.Tells
      (Ask.Touches k fun _ ↦ True) fun r new ↦ (∃ u, r.1 = .ok (.executed u)) → Rounds k new := by
  have hkey' := (Claimant.ofJob_facts settings (s.workers.get? job.worker) job).2.2.2.1.trans hkey
  let f (strategy : Strategy) (c : Claimant) (job : Job) :
      Strand (Except (Failure String) (Performed Unit) × Job) := do
    let p ← Passage.perform (host measure) settings.policy strategy c job fun job ↦
      pure (finish job)
    pure (p.result, p.job)
  have hpassage : (f (s.strategyFor job.worker)
      (Claimant.ofJob settings (s.workers.get? job.worker) job).1
      (Claimant.ofJob settings (s.workers.get? job.worker) job).2).Meets s.Tells
        (Ask.Touches k fun _ ↦ True) fun r new ↦ (∃ u, r.1 = .ok (.executed u)) →
          Rounds k new := by
    rw [hstrategy]
    apply (meets_performUntilExecuted hkey' (Claimant.runsAgain_ofJob hagain) _).bind
    intro p new h
    exact Meets.pure (by simpa using h)
  apply (meets_entered job .perform hpassage fun _ _ ↦ trivial).post
  rintro r _ ⟨first, last, rfl, hfirst, h⟩ hexecuted
  exact (h hexecuted).prepend hfirst

end

end Strand

end UniqueJobs
