import UniqueJobs.Job.Key
import UniqueJobs.Settings
import UniqueJobs.Store.Basic
import UniqueJobs.Worker

/-!
What happens to a claim, as events. Every event has a line in the log, and the counters count events
and nothing else.
-/

namespace UniqueJobs

inductive ClaimError
  /-- It was asked who holds the window before the window was claimed. -/
  | notChecked
  | store (e : StoreError)
  /-- A location of the config could not be measured. -/
  | distance (config reason : String)
  deriving DecidableEq

namespace ClaimError

def message : ClaimError → String
  | notChecked => "`check` must be called before inspecting duplicate state"
  | store e => e.message
  | distance config reason => s!"WAL distance unavailable for {config}: {reason}"

/-- May the same call succeed if it is made again? -/
def retryable : ClaimError → Bool
  | store e => e.retryable
  | _ => false

end ClaimError

/-- The two sides of a queue: a job is scheduled on one and performed on the other. -/
inductive Stage
  | schedule
  | perform
  deriving DecidableEq, Repr

def Stage.name : Stage → String
  | .schedule => "schedule"
  | .perform => "perform"

inductive Event
  | passedOver (strategy : String)
  | entered (stage : Stage) (id : JobId) (worker : String) (strategy : Strategy)
  | checked (id winner : JobId) (key : JobKey)
  | released (id : JobId) (key : JobKey)
  | checkFailed (stage : Stage) (policy : OutagePolicy) (id : JobId) (worker : String)
      (e : ClaimError)
  | locationsFailed (id : JobId) (worker : String) (e : ClaimError)
  | flagFailed (id : JobId) (worker : String) (e : ClaimError)
  | releaseFailed (id : JobId) (worker : String) (e : ClaimError)
  | dropped (id : JobId) (worker : String) (duplicateOf : JobId) (key : JobKey)
      (strategy : Strategy)
  | skipped (id : JobId) (worker : String) (duplicateOf : JobId) (key : JobKey)
  /-- A job should run again, but nothing is there to enqueue it. -/
  | noRescheduler (id : JobId) (worker : String)
  | rescheduled (id : JobId) (worker : String) (newId : JobId)
  | rescheduleFailed (id : JobId) (worker : String) (reason : String)
  deriving DecidableEq

inductive Level
  | debug
  | info
  | warn
  deriving DecidableEq, Repr

def Level.name : Level → String
  | .debug => "DEBUG"
  | .info => "INFO"
  | .warn => "WARN"

namespace Event

def level : Event → Level
  | entered .. | checked .. | released .. => .debug
  | dropped .. | skipped .. | rescheduled .. => .info
  | _ => .warn

def message : Event → String
  | passedOver _ => "unknown deduplication strategy, using until_executing"
  | entered stage .. => stage.name
  | checked .. => "duplicate check"
  | released .. => "released duplicate job keys"
  | checkFailed _ .proceed .. => "duplicate check failed, proceeding without deduplication"
  | checkFailed _ .refuse .. => "duplicate check failed, refusing job"
  | locationsFailed .. => "WAL location bookkeeping failed"
  | flagFailed .. => "reschedule flag unavailable"
  | releaseFailed .. => "failed to release duplicate job keys, leaving them to expire"
  | dropped .. => "dropped duplicate job"
  | skipped .. => "skipped duplicate job"
  | noRescheduler .. => "no rescheduler configured, not rescheduling"
  | rescheduled .. => "rescheduled deduplicated job"
  | rescheduleFailed .. => "failed to reschedule deduplicated job"

def fields : Event → List (String × String)
  | passedOver strategy => [("strategy", strategy)]
  | entered _ id worker strategy =>
    [("jid", id.text), ("worker", worker), ("strategy", strategy.name)]
  | checked id winner key =>
    [("jid", id.text), ("existing_jid", winner.text), ("idempotency_key", key.text)]
  | released id key => [("jid", id.text), ("idempotency_key", key.text)]
  | checkFailed stage _ id worker e =>
    [("stage", stage.name), ("jid", id.text), ("worker", worker), ("error", e.message)]
  | locationsFailed id worker e | flagFailed id worker e | releaseFailed id worker e =>
    [("jid", id.text), ("worker", worker), ("error", e.message)]
  | dropped id worker duplicateOf key strategy =>
    [("jid", id.text), ("worker", worker), ("duplicate_of", duplicateOf.text),
      ("idempotency_key", key.text), ("strategy", strategy.name)]
  | skipped id worker duplicateOf key =>
    [("jid", id.text), ("worker", worker), ("duplicate_of", duplicateOf.text),
      ("idempotency_key", key.text)]
  | noRescheduler id worker => [("jid", id.text), ("worker", worker)]
  | rescheduled id worker newId =>
    [("jid", id.text), ("worker", worker), ("rescheduled_jid", newId.text)]
  | rescheduleFailed id worker reason =>
    [("jid", id.text), ("worker", worker), ("error", reason)]

end Event

/-- Running totals, modulo `2 ^ 64`. -/
structure Counters where
  dropped : UInt64
  skipped : UInt64
  /-- Checks and releases that the store failed. -/
  storeErrors : UInt64
  locationFailures : UInt64
  flagFailures : UInt64
  rescheduled : UInt64
  deriving DecidableEq

namespace Counters

def zero : Counters := ⟨0, 0, 0, 0, 0, 0⟩

instance : Inhabited Counters := ⟨zero⟩

/-- Count an event under the one counter it belongs to, if any. -/
def record (c : Counters) : Event → Counters
  | .dropped .. => { c with dropped := c.dropped + 1 }
  | .skipped .. => { c with skipped := c.skipped + 1 }
  | .checkFailed .. | .releaseFailed .. => { c with storeErrors := c.storeErrors + 1 }
  | .locationsFailed .. => { c with locationFailures := c.locationFailures + 1 }
  | .flagFailed .. => { c with flagFailures := c.flagFailures + 1 }
  | .rescheduled .. => { c with rescheduled := c.rescheduled + 1 }
  | _ => c

end Counters

end UniqueJobs
