import Mathlib.Logic.Basic
import UniqueJobs.Proofs.Passage.Books

/-!
The counters account for every event. Whatever the store, the distances and the rescheduler answer
and whatever the continuations do, each counter is the number of the facts that belong to it, and no
failure is counted twice or left out. Main statement: `Runs.accounts`.
-/

namespace UniqueJobs

variable {σ ε α β : Type} {h : Host (StateM σ)} {reschedule? : Option (Booked.Rescheduler σ)}
  {next : Continuation (Booked σ) ε α}

namespace Carries

theorem note {stage : Stage} {n : Counter} {event : ClaimError → Event}
    (hevent : ∀ e, (event e).counter? = some n) (r : Except ClaimError Unit) :
    Carries (Books.Tells (n.unless r) none) (Passage.note (Booked.host h reschedule? stage) event r)
      fun _ ↦ Books.Settled := by
  cases r with
  | ok u => exact pure fun b hb ↦ hb
  | error e =>
    rw [Counter.unless, ← hevent e]
    exact emit (event e)

/-- A continuation that keeps the books settled comes to its own result or to a failure. -/
theorem pass (hnext : ∀ job, Balances (next job)) (wrap : α → β) (c : Claimant) (job : Job) :
    Carries Books.Settled (Passage.pass next wrap c job) fun p b ↦
      ((∃ a, p.result = .ok (wrap a)) ∨ ∃ e, p.result = .error e) ∧ b.Settled := by
  refine (hnext job).bind fun r ↦ ?_
  obtain ⟨result, job'⟩ := r
  cases result with
  | ok a => exact pure fun b hb ↦ ⟨.inl ⟨a, rfl⟩, hb⟩
  | error e => exact pure fun b hb ↦ ⟨.inr ⟨_, rfl⟩, hb⟩

theorem afterFailedCheck (hnext : ∀ job, Balances (next job)) (stage : Stage)
    (policy : OutagePolicy) (wrap : α → β) (c : Claimant) (job : Job) (e : ClaimError) :
    Carries (Books.Tells (some .storeErrors) none)
      (Passage.afterFailedCheck (Booked.host h reschedule? stage) stage policy next wrap c job e)
      fun p b ↦ ((∃ a, p.result = .ok (wrap a)) ∨ ∃ e, p.result = .error e) ∧ b.Settled := by
  refine (emit (.checkFailed stage policy job.id job.worker e)).bind fun _ ↦ ?_
  cases policy with
  | proceed => exact pass hnext wrap c job
  | refuse => exact pure fun b hb ↦ ⟨.inr ⟨_, rfl⟩, hb⟩

/-! ### The side that schedules -/

theorem settled_of_enqueued {result : Except (Failure ε) (Scheduled α)} {b : Books σ}
    (h : ((∃ a, result = .ok (.enqueued a)) ∨ ∃ e, result = .error e) ∧ b.Settled) :
    b.Tells none (Fact.ofScheduled result).counter? := by
  obtain ⟨⟨a, rfl⟩ | ⟨e, rfl⟩, hb⟩ := h <;> exact hb

/-- A drop is told before it is seen. -/
theorem scheduleLocked (hnext : ∀ job, Balances (next job)) (policy : OutagePolicy)
    (strategy : Strategy) (c : Claimant) (job : Job) :
    Carries Books.Settled (Passage.scheduleLocked (Booked.host h reschedule? .schedule) policy
      strategy c job next) fun p ↦ Books.Tells none (Fact.ofScheduled p.result).counter? := by
  rw [Passage.scheduleLocked]
  split
  · exact (pass hnext _ c job).imp fun _ _ ↦ settled_of_enqueued
  refine (outside h.now).bind fun now ↦ (check c _).bind fun r ↦ of_and fun hwinner ↦ ?_
  obtain ⟨checked, c⟩ := r
  cases checked with
  | error e => exact (afterFailedCheck hnext _ _ _ c job e).imp fun _ _ ↦ settled_of_enqueued
  | ok winner =>
    have hfound : c.winner.isSome = true := Option.isSome_of_eq_some (hwinner winner rfl)
    refine (offerLocations hfound).bind fun offered ↦ (note (fun _ ↦ rfl) offered).bind fun _ ↦ ?_
    split
    · exact (pass hnext _ c job).imp fun _ _ ↦ settled_of_enqueued
    · refine (setFlag c _).bind fun set ↦ (note (fun _ ↦ rfl) set).bind fun _ ↦ ?_
      exact (emit_early (.dropped _ _ winner c.key strategy)).bind fun _ ↦ pure fun b hb ↦ hb

theorem schedule (hnext : ∀ job, Balances (next job)) (policy : OutagePolicy)
    (strategy : Strategy) (c : Claimant) (job : Job) :
    Carries Books.Settled (Passage.schedule (Booked.host h reschedule? .schedule) policy strategy
      c job next) fun p ↦ Books.Tells none (Fact.ofScheduled p.result).counter? := by
  cases strategy with
  | untilExecuting | untilExecuted => exact scheduleLocked hnext policy _ c job
  | never => exact (pass hnext _ c job).imp fun _ _ ↦ settled_of_enqueued

/-! ### The side that performs -/

theorem settled_of_executed {result : Except (Failure ε) (Performed α)} {b : Books σ}
    (h : ((∃ a, result = .ok (.executed a)) ∨ ∃ e, result = .error e) ∧ b.Settled) :
    b.Tells none (Fact.ofPerformed result).counter? := by
  obtain ⟨⟨a, rfl⟩ | ⟨e, rfl⟩, hb⟩ := h <;> exact hb

theorem attachLatest (c : Claimant) (job : Job) :
    Balances (Passage.attachLatest (Booked.host h reschedule? .perform) c job) := by
  refine (readLatest c).bind fun r ↦ ?_
  obtain ⟨latest, c⟩ := r
  cases latest with
  | ok latest => exact pure fun b hb ↦ hb
  | error e =>
    exact (emit (.locationsFailed job.id job.worker e)).bind fun _ ↦ pure fun b hb ↦ hb

theorem letGo (c : Claimant) (job : Job) :
    Balances (Passage.letGo (Booked.host h reschedule? .perform) c job) :=
  (release c).bind fun r ↦ note (fun _ ↦ rfl) r

theorem performUntilExecuting (hnext : ∀ job, Balances (next job)) (policy : OutagePolicy)
    (c : Claimant) (job : Job) :
    Carries Books.Settled (Passage.performUntilExecuting (Booked.host h reschedule? .perform) policy
      c job next) fun p ↦ Books.Tells none (Fact.ofPerformed p.result).counter? := by
  rw [Passage.performUntilExecuting]
  refine (attachLatest c job).bind fun r ↦ ?_
  obtain ⟨c, job⟩ := r
  refine (outside h.now).bind fun now ↦ (check c _).bind fun r ↦ of_and fun _ ↦ ?_
  obtain ⟨checked, c⟩ := r
  cases checked with
  | error e => exact (afterFailedCheck hnext _ _ _ c job e).imp fun _ _ ↦ settled_of_executed
  | ok winner =>
    by_cases hown : winner = c.id
    · simp only [if_pos hown]
      refine (hnext job).bind fun r ↦ ?_
      obtain ⟨result, job⟩ := r
      cases result with
      | error e => exact pure fun b hb ↦ hb
      | ok a => exact (letGo c job).bind fun _ ↦ pure fun b hb ↦ hb
    · simp only [if_neg hown]
      exact (emit_early (.skipped job.id job.worker winner c.key)).bind fun _ ↦ pure fun b hb ↦ hb

theorem readFlag (c : Claimant) (job : Job) :
    Balances (Passage.readFlag (Booked.host h reschedule? .perform) c job) := by
  refine (flagged c).bind fun r ↦ ?_
  cases r with
  | ok flagged => exact pure fun b hb ↦ hb
  | error e => exact (emit (.flagFailed job.id job.worker e)).bind fun _ ↦ pure fun b hb ↦ hb

theorem runAgain (hreschedule : ∀ reschedule ∈ reschedule?, ∀ job, Balances (reschedule job))
    (job : Job) :
    Balances (Passage.runAgain (Booked.host h reschedule? .perform) job) := by
  rw [Passage.runAgain]
  cases reschedule? with
  | none => exact emit (.noRescheduler job.id job.worker)
  | some reschedule =>
    refine (outside h.freshId).bind fun id ↦ ?_
    have hanswered := hreschedule reschedule rfl (job.respawn id)
    refine (seen hanswered fun _ hfailed ↦ (by cases hfailed)).bind fun answer ↦ ?_
    cases answer with
    | ok u => exact emit (.rescheduled job.id job.worker id)
    | error reason => exact emit (.rescheduleFailed job.id job.worker reason)

theorem performUntilExecuted
    (hreschedule : ∀ reschedule ∈ reschedule?, ∀ job, Balances (reschedule job))
    (hnext : ∀ job, Balances (next job)) (c : Claimant) (job : Job) :
    Carries Books.Settled (Passage.performUntilExecuted (Booked.host h reschedule? .perform) c job
      next) fun p ↦ Books.Tells none (Fact.ofPerformed p.result).counter? := by
  rw [Passage.performUntilExecuted]
  refine (attachLatest c job).bind fun r ↦ ?_
  obtain ⟨c, job⟩ := r
  refine (hnext job).bind fun r ↦ ?_
  obtain ⟨result, job⟩ := r
  refine (readFlag c job).bind fun flagged ↦ (letGo c job).bind fun _ ↦ ?_
  cases result with
  | error e => exact pure fun b hb ↦ hb
  | ok a =>
    cases flagged with
    | true => exact (runAgain hreschedule job).bind fun _ ↦ pure fun b hb ↦ hb
    | false => exact pure fun b hb ↦ hb

theorem perform (hreschedule : ∀ reschedule ∈ reschedule?, ∀ job, Balances (reschedule job))
    (hnext : ∀ job, Balances (next job)) (policy : OutagePolicy) (strategy : Strategy)
    (c : Claimant) (job : Job) :
    Carries Books.Settled (Passage.perform (Booked.host h reschedule? .perform) policy strategy c
      job next) fun p ↦ Books.Tells none (Fact.ofPerformed p.result).counter? := by
  cases strategy with
  | untilExecuting => exact performUntilExecuting hnext policy c job
  | untilExecuted => exact performUntilExecuted hreschedule hnext c job
  | never => exact (pass hnext _ c job).imp fun _ _ ↦ settled_of_executed

end Carries

/-! ### Whole runs -/

namespace Booked

/-- A job is scheduled, and it is seen what becomes of it. -/
def schedule (g : Gate (StateM σ)) (reschedule? : Option (Rescheduler σ)) (job : Job)
    (next : Continuation (Booked σ) ε α) : Booked σ (Except (Failure ε) (Scheduled α) × Job) :=
  do
    let (result, job) ← (gate g reschedule? .schedule).schedule job next
    write (.ofScheduled result)
    pure (result, job)

def perform (g : Gate (StateM σ)) (reschedule? : Option (Rescheduler σ)) (job : Job)
    (next : Continuation (Booked σ) ε α) : Booked σ (Except (Failure ε) (Performed α) × Job) :=
  do
    let (result, job) ← (gate g reschedule? .perform).perform job next
    write (.ofPerformed result)
    pure (result, job)

end Booked

/-- The runs of one gate. Jobs are scheduled and performed in any row, what happens beside them is
anything that leaves the books alone, and continuations and reschedulers are runs themselves, so
that they may come back to the gate. -/
inductive Runs (g : Gate (StateM σ)) : {α : Type} → Booked σ α → Prop
  | outside {α : Type} (x : StateM σ α) : Runs g (Booked.outside x)
  | bind {α β : Type} {x : Booked σ α} {f : α → Booked σ β} (hx : Runs g x)
      (hf : ∀ a, Runs g (f a)) : Runs g (x >>= f)
  | schedule {ε α : Type} {reschedule? : Option (Booked.Rescheduler σ)}
      {next : Continuation (Booked σ) ε α} (job : Job)
      (hreschedule : ∀ reschedule ∈ reschedule?, ∀ job, Runs g (reschedule job))
      (hnext : ∀ job, Runs g (next job)) : Runs g (Booked.schedule g reschedule? job next)
  | perform {ε α : Type} {reschedule? : Option (Booked.Rescheduler σ)}
      {next : Continuation (Booked σ) ε α} (job : Job)
      (hreschedule : ∀ reschedule ∈ reschedule?, ∀ job, Runs g (reschedule job))
      (hnext : ∀ job, Runs g (next job)) : Runs g (Booked.perform g reschedule? job next)

namespace Carries

variable {g : Gate (StateM σ)}

theorem claimant (stage : Stage) (job : Job) :
    Balances ((Booked.gate g reschedule? stage).claimant job) :=
  (outside (g.worker? job.worker)).bind fun _ ↦ pure fun _ hb ↦ hb

theorem strategyOf (stage : Stage) (c : Claimant) :
    Balances ((Booked.gate g reschedule? stage).strategyOf c) := by
  refine (outside (g.isOn c.workerName)).bind fun on ↦ ?_
  rw [Claimant.strategy]
  cases Strategy.passedOver? c.worker on with
  | none => exact pure fun b hb ↦ hb
  | some name => exact (emit (.passedOver name)).bind fun _ ↦ pure fun b hb ↦ hb

theorem booked_schedule (hnext : ∀ job, Balances (next job)) (job : Job) :
    Balances (Booked.schedule g reschedule? job next) := by
  have hpasses : Carries Books.Settled ((Booked.gate g reschedule? .schedule).schedule job next)
      fun r ↦ Books.Tells none (Fact.ofScheduled r.1).counter? := by
    refine (claimant .schedule job).bind fun r ↦ ?_
    obtain ⟨c, job⟩ := r
    refine (strategyOf .schedule c).bind fun strategy ↦ ?_
    refine (emit (.entered .schedule job.id job.worker strategy)).bind fun _ ↦ ?_
    refine (schedule hnext g.settings.policy strategy c job).bind fun p ↦ ?_
    exact pure fun b hb ↦ hb
  exact hpasses.bind fun r ↦ (write_early (by simp)).bind fun _ ↦ pure fun b hb ↦ hb

theorem booked_perform (hreschedule : ∀ reschedule ∈ reschedule?, ∀ job, Balances (reschedule job))
    (hnext : ∀ job, Balances (next job)) (job : Job) :
    Balances (Booked.perform g reschedule? job next) := by
  have hpasses : Carries Books.Settled ((Booked.gate g reschedule? .perform).perform job next)
      fun r ↦ Books.Tells none (Fact.ofPerformed r.1).counter? := by
    refine (claimant .perform job).bind fun r ↦ ?_
    obtain ⟨c, job⟩ := r
    refine (strategyOf .perform c).bind fun strategy ↦ ?_
    refine (emit (.entered .perform job.id job.worker strategy)).bind fun _ ↦ ?_
    refine (perform hreschedule hnext g.settings.policy strategy c job).bind fun p ↦ ?_
    exact pure fun b hb ↦ hb
  exact hpasses.bind fun r ↦ (write_early (by simp)).bind fun _ ↦ pure fun b hb ↦ hb

end Carries

/-- Between one call of the gate and the next the events tell the facts, one by one. -/
theorem Runs.balances {g : Gate (StateM σ)} {x : Booked σ α} (h : Runs g x) : Balances x := by
  induction h with
  | outside x => exact Carries.outside x
  | bind _ _ ihx ihf => exact ihx.bind ihf
  | schedule job _ _ _ ihnext => exact Carries.booked_schedule ihnext job
  | perform job _ _ ihreschedule ihnext => exact Carries.booked_perform ihreschedule ihnext job

namespace Books

theorem Settled.get_counters {b : Books σ} (hb : b.Settled) (n : Counter) :
    b.counters.get n = UInt64.ofNat (b.facts.countP fun f ↦ f.counter? = some n) := by
  have htold := hb.told
  rw [Option.toList_none, List.append_nil, List.append_nil] at htold
  have hzero : Counters.zero.get n = 0 := by cases n <;> rfl
  rw [counters, Counters.after, Counters.get_foldl_record, hzero, UInt64.zero_add, ← htold,
    List.count_filterMap]
  simp only [beq_eq_decide]

theorem countP_failed {facts : List Fact}
    (h : ∀ f ∈ facts, f.failed = true → f.counter?.isSome = true) :
    facts.countP Fact.failed = facts.countP (fun f ↦ f.counter? = some .storeErrors) +
      facts.countP (fun f ↦ f.counter? = some .locationFailures) +
        facts.countP (fun f ↦ f.counter? = some .flagFailures) := by
  induction facts with
  | nil => rfl
  | cons f rest ih =>
    obtain ⟨hf, hrest⟩ := List.forall_mem_cons.mp h
    simp only [List.countP_cons, ih hrest]
    cases hcounter : f.counter? with
    | none =>
      have hfailed : f.failed = false := by
        rw [hcounter] at hf
        simpa using hf
      simp [hfailed]
    | some n =>
      have hone : (if f.failed = true then 1 else 0) = (if n = .storeErrors then 1 else 0) +
          (if n = .locationFailures then 1 else 0) + if n = .flagFailures then 1 else 0 := by
        rw [if_congr (Fact.failed_iff hcounter) rfl rfl]
        cases n <;> rfl
      simp only [Option.some.injEq, decide_eq_true_eq]
      omega

/-- The counters of failures count every failure once. -/
theorem Settled.failures {b : Books σ} (hb : b.Settled) :
    b.counters.storeErrors + b.counters.locationFailures + b.counters.flagFailures =
      UInt64.ofNat (b.facts.countP Fact.failed) := by
  rw [countP_failed hb.counted, UInt64.ofNat_add, UInt64.ofNat_add, ← hb.get_counters,
    ← hb.get_counters, ← hb.get_counters]
  rfl

end Books

/-- Each counter is the number of the facts that belong to it, modulo `2 ^ 64`. Every failure
belongs to one of three counters, and no failure belongs to two. -/
theorem Runs.accounts {g : Gate (StateM σ)} {x : Booked σ α} (h : Runs g x) (s : σ) :
    let b := (x.run (.opened s)).2
    (∀ n, b.counters.get n = UInt64.ofNat (b.facts.countP fun f ↦ f.counter? = some n)) ∧
      b.counters.storeErrors + b.counters.locationFailures + b.counters.flagFailures =
        UInt64.ofNat (b.facts.countP Fact.failed) := by
  have hb := h.balances (.opened s) ⟨rfl, by simp [Books.opened]⟩
  exact ⟨hb.get_counters, hb.failures⟩

namespace Booked

/-- Every window is another instance's, every job is flagged, and all else that is asked of the
store fails. -/
def failingStore : RecordStore (StateM Unit) where
  get _ := pure (.ok (some "1"))
  setIfAbsent _ _ _ := pure (.error (.unavailable .switchedOff))
  delete _ := pure (.error (.unavailable .switchedOff))
  batch requests := pure <|
    if Passage.claims requests then .ok (requests.map fun _ ↦ .value (some "b"))
    else .error (.unavailable .switchedOff)
  run _ _ _ := pure (.error (.unavailable .switchedOff))

def failingGate : Gate (StateM Unit) where
  settings := .default
  host :=
    { store := failingStore
      distance := .lsn
      now := pure ⟨0, 0, by decide, .inl (by decide)⟩
      emit := fun _ ↦ pure ()
      freshId := pure ⟨"c"⟩
      reschedule? := none }
  worker? _ := pure (some (Worker.newIdempotent.withStrategy "until_executed").runAgain)
  isOn _ := pure true

def positioned : Job := (Job.new ⟨"a"⟩ "w" []).withLocation "main" "0/10"

def accepts : Continuation (Booked Unit) String Unit := fun job ↦ outside (pure (.ok (), job))

/-- The job is scheduled when it comes back. -/
def comesBack : Rescheduler Unit := fun job ↦ do
  let _ ← schedule failingGate none job accepts
  outside (pure (.ok ()))

def badDay : Booked Unit (Except (Failure String) (Performed Unit) × Job) := do
  let _ ← schedule failingGate none positioned accepts
  perform failingGate (some comesBack) positioned accepts

end Booked

open Booked in
theorem Runs.accounts_badDay :
    Runs failingGate badDay ∧ (badDay.run (.opened ())).2.counters = ⟨2, 0, 1, 3, 2, 1⟩ ∧
      ∀ n, (badDay.run (.opened ())).2.counters.get n = UInt64.ofNat
        ((badDay.run (.opened ())).2.facts.countP fun f ↦ f.counter? = some n) := by
  have hnone : ∀ reschedule ∈ (none : Option (Rescheduler Unit)), ∀ job,
      Runs failingGate (reschedule job) := by simp
  have hback (job : Job) : Runs failingGate (comesBack job) :=
    .bind (.schedule job hnone fun _ ↦ .outside _) fun _ ↦ .outside _
  have hruns : Runs failingGate badDay :=
    .bind (.schedule positioned hnone fun _ ↦ .outside _) fun _ ↦
      .perform positioned (by simpa using hback) fun _ ↦ .outside _
  exact ⟨hruns, by decide +kernel, (hruns.accounts ()).1⟩

end UniqueJobs
