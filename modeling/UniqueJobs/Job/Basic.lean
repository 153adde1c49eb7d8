import UniqueJobs.Time

/-!
Jobs and their instances. A logical job is a worker with arguments on a queue; each time it is
enqueued there is a new instance with an id of its own.
-/

namespace UniqueJobs

structure JobId where
  text : String
  deriving DecidableEq

structure JobIdError where
  reason : String
  deriving DecidableEq

def JobIdError.message (e : JobIdError) : String := s!"invalid identifier: {e.reason}"

namespace JobId

instance : Inhabited JobId := ⟨⟨""⟩⟩

def parse (s : String) : Except JobIdError JobId :=
  if s.isEmpty then .error ⟨"jid must not be empty"⟩ else .ok ⟨s⟩

end JobId

def defaultQueue : String := "default"

/-- One instance of a job on its way through the queue. -/
structure Job where
  worker : String
  args : List Value
  id : JobId
  queue : String
  /-- When the instance is to run, if it was put off. -/
  runAt : Option Timestamp
  /-- Per database config, the position in the write-ahead log that the producer had seen. -/
  locations : Dictionary String
  /-- The text of the key of the logical job, once it has been worked out. -/
  key : Option String
  /-- The instance that this one was found to be a duplicate of. -/
  duplicateOf : Option JobId
  /-- Per database config, the furthest position that any instance of the job reported. -/
  latest : Dictionary String

namespace Job

def new (id : JobId) (worker : String) (args : List Value) : Job :=
  ⟨worker, args, id, defaultQueue, none, .empty, none, none, .empty⟩

def withId (j : Job) (id : JobId) : Job := { j with id }

def onQueue (j : Job) (queue : String) : Job := { j with queue }

def withLocation (j : Job) (config location : String) : Job :=
  { j with locations := j.locations.insert config location }

def scheduledAt (j : Job) (t : Timestamp) : Job := { j with runAt := some t }

/-- Put off by a delay from now, if the calendar reaches that far. -/
def delayed? (j : Job) (now : Timestamp) (delay : Duration) : Option Job :=
  (now.after? delay).map j.scheduledAt

def respawn (j : Job) (id : JobId) : Job :=
  { j with id, runAt := none, duplicateOf := none, latest := .empty }

end Job

end UniqueJobs
