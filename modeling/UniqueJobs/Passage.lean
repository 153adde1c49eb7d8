import UniqueJobs.Claimant

/-!
The passage of a job through its window, on either side of the queue. `Passage.schedule` and
`Passage.perform` run a continuation, which enqueues or runs the job, unless another instance holds
the window or, by policy, unless the store could not be asked. No other failure keeps a job from
passing: it becomes an event.
-/

namespace UniqueJobs

inductive Scheduled (α : Type)
  | enqueued (value : α)
  | dropped (duplicateOf : JobId)
  deriving DecidableEq

inductive Performed (α : Type)
  | executed (value : α)
  | skipped (duplicateOf : JobId)
  deriving DecidableEq

def Scheduled.isEnqueued {α : Type} : Scheduled α → Bool
  | .enqueued _ => true
  | .dropped _ => false

def Performed.isExecuted {α : Type} : Performed α → Bool
  | .executed _ => true
  | .skipped _ => false

inductive Failure (ε : Type)
  /-- The claim failed and the policy is to refuse then. -/
  | refused (e : ClaimError)
  | job (e : ε)
  deriving DecidableEq

/-- Everything a passage deals with besides the job. -/
structure Host (m : Type → Type) where
  store : RecordStore m
  distance : Distance m
  now : m Timestamp
  emit : Event → m Unit
  freshId : m JobId
  reschedule? : Option (Job → m (Except String Unit))

/-- The continuation of a passage, which may change the job. -/
abbrev Continuation (m : Type → Type) (ε α : Type) := Job → m (Except ε α × Job)

structure Passage (ρ : Type) where
  result : ρ
  claimant : Claimant
  job : Job

namespace Passage

variable {m : Type → Type} [Monad m] {ε α β : Type}

def note (h : Host m) (event : ClaimError → Event) : Except ClaimError Unit → m Unit
  | .ok () => pure ()
  | .error e => h.emit (event e)

/-- Run the continuation, its result being that of the passage. -/
def pass (next : Continuation m ε α) (wrap : α → β) (c : Claimant) (job : Job) :
    m (Passage (Except (Failure ε) β)) := do
  let (result, job) ← next job
  match result with
  | .ok a => pure ⟨.ok (wrap a), c, job⟩
  | .error e => pure ⟨.error (.job e), c, job⟩

def afterFailedCheck (h : Host m) (stage : Stage) (policy : OutagePolicy)
    (next : Continuation m ε α) (wrap : α → β) (c : Claimant) (job : Job) (e : ClaimError) :
    m (Passage (Except (Failure ε) β)) := do
  h.emit (.checkFailed stage policy job.id job.worker e)
  match policy with
  | .proceed => pass next wrap c job
  | .refuse => pure ⟨.error (.refused e), c, job⟩

/-- Schedule a job under a strategy that locks. A job put off to a later date passes unless its
worker includes such jobs. -/
def scheduleLocked (h : Host m) (policy : OutagePolicy) (strategy : Strategy) (c : Claimant)
    (job : Job) (next : Continuation m ε α) : m (Passage (Except (Failure ε) (Scheduled α))) := do
  if c.runAt.isSome && !c.uniqueness.includingScheduled then pass next .enqueued c job
  else
    let window := c.window (← h.now)
    let (checked, c) ← c.check h.store h.emit window
    match checked with
    | .error e => afterFailedCheck h .schedule policy next .enqueued c job e
    | .ok winner => do
      note h (.locationsFailed job.id job.worker) (← c.offerLocations h.store h.distance)
      if winner = c.id then pass next .enqueued c job
      else
        let job := { job with duplicateOf := some winner }
        note h (.flagFailed job.id job.worker) (← c.setFlag h.store window)
        h.emit (.dropped job.id job.worker winner c.key strategy)
        pure ⟨.ok (.dropped winner), c, job⟩

/-- Hand the furthest log positions to the job, if there are any. -/
def attachLatest (h : Host m) (c : Claimant) (job : Job) : m (Claimant × Job) := do
  let (latest, c) ← c.readLatest h.store
  match latest with
  | .ok latest => pure (c, if latest.isEmpty then job else { job with latest })
  | .error e => do
    h.emit (.locationsFailed job.id job.worker e)
    pure (c, job)

def letGo (h : Host m) (c : Claimant) (job : Job) : m Unit := do
  note h (.releaseFailed job.id job.worker) (← c.release h.store h.emit)

/-- Perform a job whose window is held until it has run with success. -/
def performUntilExecuting (h : Host m) (policy : OutagePolicy) (c : Claimant) (job : Job)
    (next : Continuation m ε α) : m (Passage (Except (Failure ε) (Performed α))) := do
  let (c, job) ← attachLatest h c job
  let window := c.window (← h.now)
  let (checked, c) ← c.check h.store h.emit window
  match checked with
  | .error e => afterFailedCheck h .perform policy next .executed c job e
  | .ok winner =>
    if winner = c.id then do
      let (result, job) ← next job
      match result with
      | .error e => pure ⟨.error (.job e), c, job⟩
      | .ok a => do
        letGo h c job
        pure ⟨.ok (.executed a), c, job⟩
    else do
      h.emit (.skipped job.id job.worker winner c.key)
      pure ⟨.ok (.skipped winner), c, job⟩

/-- Was the job flagged to run again? A flag that cannot be read counts as none. -/
def readFlag (h : Host m) (c : Claimant) (job : Job) : m Bool := do
  match ← c.flagged h.store with
  | .ok flagged => pure flagged
  | .error e => do
    h.emit (.flagFailed job.id job.worker e)
    pure false

def runAgain (h : Host m) (job : Job) : m Unit := do
  match h.reschedule? with
  | none => h.emit (.noRescheduler job.id job.worker)
  | some reschedule => do
    let fresh := job.respawn (← h.freshId)
    match ← reschedule fresh with
    | .ok () => h.emit (.rescheduled job.id job.worker fresh.id)
    | .error reason => h.emit (.rescheduleFailed job.id job.worker reason)

/-- Perform a job whose window is held until it has run. The flag is read before the release, which
deletes it, and only a job that ran with success runs again. -/
def performUntilExecuted (h : Host m) (c : Claimant) (job : Job) (next : Continuation m ε α) :
    m (Passage (Except (Failure ε) (Performed α))) := do
  let (c, job) ← attachLatest h c job
  let (result, job) ← next job
  let flagged ← readFlag h c job
  letGo h c job
  match result with
  | .error e => pure ⟨.error (.job e), c, job⟩
  | .ok a => do
    if flagged then runAgain h job
    pure ⟨.ok (.executed a), c, job⟩

def schedule (h : Host m) (policy : OutagePolicy) (strategy : Strategy) (c : Claimant) (job : Job)
    (next : Continuation m ε α) : m (Passage (Except (Failure ε) (Scheduled α))) :=
  match strategy with
  | .untilExecuting | .untilExecuted => scheduleLocked h policy strategy c job next
  | .never => pass next .enqueued c job

theorem schedule_of_locks {strategy : Strategy} (hlocks : strategy.locks = true) (h : Host m)
    (policy : OutagePolicy) (c : Claimant) (job : Job) (next : Continuation m ε α) :
    schedule h policy strategy c job next = scheduleLocked h policy strategy c job next := by
  cases strategy with
  | untilExecuting | untilExecuted => rfl
  | never => cases hlocks

def perform (h : Host m) (policy : OutagePolicy) (strategy : Strategy) (c : Claimant) (job : Job)
    (next : Continuation m ε α) : m (Passage (Except (Failure ε) (Performed α))) :=
  match strategy with
  | .untilExecuting => performUntilExecuting h policy c job next
  | .untilExecuted => performUntilExecuted h c job next
  | .never => pass next .executed c job

end Passage

end UniqueJobs
