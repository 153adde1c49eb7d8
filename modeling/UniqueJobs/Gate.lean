import UniqueJobs.Passage

/-!
The gate through which the jobs of a queue pass, on the side that schedules and on the side that
performs them. It knows the workers and their switches, and so the strategy for each job.
-/

namespace UniqueJobs

structure Gate (m : Type → Type) where
  settings : Settings
  host : Host m
  worker? : String → m (Option Worker)
  isOn : String → m Bool

namespace Gate

variable {m : Type → Type} [Monad m] {ε α : Type}

def claimant (g : Gate m) (job : Job) : m (Claimant × Job) := do
  let worker ← g.worker? job.worker
  pure (Claimant.ofJob g.settings worker job)

def strategyOf (g : Gate m) (c : Claimant) : m Strategy := do
  c.strategy g.host.emit (← g.isOn c.workerName)

def strategyFor (g : Gate m) (job : Job) : m (Strategy × Job) := do
  let (c, job) ← g.claimant job
  let strategy ← g.strategyOf c
  pure (strategy, job)

def schedule (g : Gate m) (job : Job) (next : Continuation m ε α) :
    m (Except (Failure ε) (Scheduled α) × Job) := do
  let (c, job) ← g.claimant job
  let strategy ← g.strategyOf c
  g.host.emit (.entered .schedule job.id job.worker strategy)
  let p ← Passage.schedule g.host g.settings.policy strategy c job next
  pure (p.result, p.job)

def perform (g : Gate m) (job : Job) (next : Continuation m ε α) :
    m (Except (Failure ε) (Performed α) × Job) := do
  let (c, job) ← g.claimant job
  let strategy ← g.strategyOf c
  g.host.emit (.entered .perform job.id job.worker strategy)
  let p ← Passage.perform g.host g.settings.policy strategy c job next
  pure (p.result, p.job)

end Gate

end UniqueJobs
