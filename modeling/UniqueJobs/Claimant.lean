import UniqueJobs.Event
import UniqueJobs.Lsn
import UniqueJobs.Settings
import UniqueJobs.Store.Basic
import UniqueJobs.Worker

/-!
One instance of a job as it claims the window of its logical job. The instances meet only in the
store, where the first to write its id under the key of the job holds the window until it is released
or expires. Beside that record stand, for every database config, the position of the log when the
window was claimed and the furthest position reported since, a flag for a dropped duplicate, and the
set of configs that have such records.
-/

namespace UniqueJobs

/-- How far a location of a database config is ahead of a baseline. -/
abbrev Distance (m : Type → Type) := String → String → String → m (Except LsnError Int64)

/-- The distance between positions of the log, whatever the config. -/
def Distance.lsn {m : Type → Type} [Monad m] : Distance m :=
  fun _ location baseline ↦ pure (Lsn.distance location baseline)

/-- What is known of an instance when its claim begins, and what the store has told it since. -/
structure Claimant where
  settings : Settings
  workerName : String
  worker : Option Worker
  id : JobId
  key : JobKey
  locations : Dictionary String
  runAt : Option Timestamp
  /-- The holder of the window by the last check. -/
  winner : Option JobId
  /-- The positions that the window was claimed at, by the last check. -/
  baselines : Dictionary String
  latest : Option (Dictionary String)

namespace Claimant

def ofJob (settings : Settings) (worker : Option Worker) (job : Job) : Claimant × Job :=
  let (key, job) := job.identify settings.keyspace
  (⟨settings, job.worker, worker, job.id, key, job.locations, job.runAt, none, .empty, none⟩, job)

/-- The worker, nothing being taken for granted of an unknown one. -/
def workerOrUnknown (c : Claimant) : Worker := c.worker.getD .unknown

def uniqueness (c : Claimant) : Uniqueness := c.workerOrUnknown.uniqueness

def isIdempotent (c : Claimant) : Bool := c.workerOrUnknown.idempotent

/-- Does the job run again after an instance of it was dropped? -/
def runsAgain (c : Claimant) : Bool := c.uniqueness.afterDrop = .runAgain

/-- How long the worker's windows are held; a window of no length stands for the usual one. -/
def baseWindow (c : Claimant) : Duration :=
  match c.uniqueness.window with
  | some d => if d.isZero then c.settings.window else d
  | none => c.settings.window

/-- How long this instance would hold the window: longer by the time until it is to run. -/
def window (c : Claimant) (now : Timestamp) : Duration :=
  match c.runAt.bind (·.remaining? now) with
  | some untilRun => c.baseWindow.add untilRun
  | none => c.baseWindow

def claimWrites (c : Claimant) (window : Duration) : List Request :=
  .setIfAbsent c.key.text c.id.text window ::
    c.locations.entries.map (fun e ↦ .setIfAbsent (c.key.baseline e.1) e.2 window) ++
    if c.locations.isEmpty then [] else [.addNames c.key.configs c.locations.keys window]

def writeCount (c : Claimant) : Nat := if c.locations.isEmpty then 1 else c.locations.size + 2

theorem length_claimWrites (c : Claimant) (window : Duration) :
    (c.claimWrites window).length = c.writeCount := by
  unfold claimWrites writeCount
  split <;> simp_all [Dictionary.isEmpty, Dictionary.size]

def claimReads (c : Claimant) : List Request :=
  .get c.key.text :: c.locations.keys.map fun config ↦ .get (c.key.baseline config)

/-- Read the values of configs from the replies in their order, leaving out absent ones. -/
def readValues : List String → List Reply → Except StoreError (Dictionary String)
  | [], _ => .ok .empty
  | _ :: _, [] => .error (.unexpectedReply .truncated)
  | config :: configs, reply :: replies =>
    match reply.toValue with
    | .error e => .error e
    | .ok v =>
      match readValues configs replies with
      | .error e => .error e
      | .ok rest =>
        match v with
        | some location => .ok (rest.insert config location)
        | none => .ok rest

/-- The holder and the baselines from the replies to `claimWrites` and `claimReads`. -/
def readClaim (c : Claimant) (replies : List Reply) :
    Except StoreError (JobId × Dictionary String) :=
  match replies.drop c.writeCount with
  | [] => .error (.unexpectedReply .truncated)
  | reply :: replies =>
    match reply.toValue with
    | .error e => .error e
    | .ok none => .error (.unexpectedReply (.vanished c.key.text))
    | .ok (some winner) =>
      match readValues c.locations.keys replies with
      | .error e => .error e
      | .ok baselines => .ok (⟨winner⟩, baselines)

variable {m : Type → Type} [Monad m]

/-- Claim the window for a time and learn who holds it. -/
def check (c : Claimant) (store : RecordStore m) (emit : Event → m Unit) (window : Duration) :
    m (Except ClaimError JobId × Claimant) := do
  match ← store.batch (c.claimWrites window ++ c.claimReads) with
  | .error e => pure (.error (.store e), c)
  | .ok replies =>
    match c.readClaim replies with
    | .error e => pure (.error (.store e), c)
    | .ok (winner, baselines) => do
      emit (.checked c.id winner c.key)
      pure (.ok winner, { c with winner := some winner, baselines })

def isDuplicate (c : Claimant) : Except ClaimError Bool :=
  match c.winner with
  | some winner => .ok (winner ≠ c.id)
  | none => .error .notChecked

/-- Offer locations to the store one by one, up to the first that cannot be measured or sent. -/
def offer (c : Claimant) (store : RecordStore m) (distance : Distance m) :
    List (String × String) → m (Except ClaimError Unit)
  | [] => pure (.ok ())
  | (config, location) :: rest => do
    match ← distance config location ((c.baselines.get? config).getD location) with
    | .error e => pure (.error (.distance config e.message))
    | .ok offset =>
      match ← store.run .advance [c.key.latest config, c.key.configs]
          [location, toString offset.toInt, toString c.settings.latestTtl.millis, config] with
      | .error e => pure (.error (.store e))
      | .ok () => c.offer store distance rest

/-- Offer this instance's locations as the furthest ones, each with its distance from the baseline
or, where there is no baseline, from itself. -/
def offerLocations (c : Claimant) (store : RecordStore m) (distance : Distance m) :
    m (Except ClaimError Unit) :=
  if c.locations.isEmpty then pure (.ok ())
  else if c.winner.isNone then pure (.error .notChecked)
  else c.offer store distance c.locations.entries

/-- Read the values of configs from replies, taking as many as there are of both. -/
def pairValues : List String → List Reply → Except StoreError (Dictionary String)
  | config :: configs, reply :: replies =>
    match reply.toValue with
    | .error e => .error e
    | .ok v =>
      match pairValues configs replies with
      | .error e => .error e
      | .ok rest =>
        match v with
        | some location => .ok (rest.insert config location)
        | none => .ok rest
  | _, _ => .ok .empty

/-- The furthest locations for this instance's configs. They are read once. -/
def readLatest (c : Claimant) (store : RecordStore m) :
    m (Except ClaimError (Dictionary String) × Claimant) := do
  match c.latest with
  | some latest => pure (.ok latest, c)
  | none =>
    if c.locations.isEmpty then pure (.ok .empty, { c with latest := some .empty })
    else
      match ← store.batch (c.locations.keys.map fun config ↦ .item (c.key.latest config) 0) with
      | .error e => pure (.error (.store e), c)
      | .ok replies =>
        match pairValues c.locations.keys replies with
        | .error e => pure (.error (.store e), c)
        | .ok latest => pure (.ok latest, { c with latest := some latest })

/-- Delete every record of the logical job, whoever wrote it. -/
def release (c : Claimant) (store : RecordStore m) (emit : Event → m Unit) :
    m (Except ClaimError Unit) := do
  match ← store.run .release [c.key.text, c.key.flag, c.key.configs] c.locations.keys with
  | .error e => pure (.error (.store e))
  | .ok () => do
    emit (.released c.id c.key)
    pure (.ok ())

/-- Note for a time that a duplicate was dropped, if the job is to run again for it. -/
def setFlag (c : Claimant) (store : RecordStore m) (ttl : Duration) : m (Except ClaimError Unit) :=
  if c.runsAgain then do
    match ← store.setIfAbsent c.key.flag "1" ttl with
    | .error e => pure (.error (.store e))
    | .ok _ => pure (.ok ())
  else pure (.ok ())

def flagged (c : Claimant) (store : RecordStore m) : m (Except ClaimError Bool) :=
  if c.runsAgain then do
    match ← store.get c.key.flag with
    | .error e => pure (.error (.store e))
    | .ok v => pure (.ok v.isSome)
  else pure (.ok false)

def strategy (c : Claimant) (emit : Event → m Unit) (on : Bool) : m Strategy := do
  match Strategy.passedOver? c.worker on with
  | some name => emit (.passedOver name)
  | none => pure ()
  pure (Strategy.ofWorker c.worker on)

end Claimant

end UniqueJobs
