import UniqueJobs.Gate
import UniqueJobs.Job.Fresh
import UniqueJobs.Store.Cued
import UniqueJobs.Store.Local

/-!
A gate with all it needs inside one process: a store, the workers, two clocks that go alike and stand
still between calls, the counters and the log, and a place for jobs that are to run again.
-/

namespace UniqueJobs

structure Site where
  store : LocalStore
  cues : Cues
  /-- The wall clock: nanoseconds since 1970 began. It may go on past the end of the calendar. -/
  wall : Nat
  clock : Instant
  workers : Dictionary Worker
  off : NameSet
  counters : Counters
  log : List Event
  rescheduled : List Job
  ids : IdSource

namespace Site

def opened (wall : Nat) (clock : Instant) : Site :=
  ⟨.empty, [], wall, clock, .empty, .empty, .zero, [], [], .start⟩

/-- Both clocks go on. -/
def advance (d : Duration) (s : Site) : Site :=
  { s with wall := s.wall + d.nanos, clock := ⟨s.clock.nanos + d.nanos⟩ }

/-- The date by the wall clock, while the calendar lasts. -/
def date? (s : Site) : Option Timestamp := Timestamp.ofNanos? s.wall

/-- What is done at a site. It breaks off with no result where it asks for a date that the calendar
does not have. -/
abbrev Act := StateT Site Option

def now : Act Timestamp := fun s ↦ s.date?.map fun t ↦ (t, s)

variable {m : Type → Type} [Monad m]

def nextCue (kind : CallKind) : StateT Site m Cue := modifyGet fun s ↦
  let (cue, cues) := s.cues.pop kind
  (cue, { s with cues })

def onStore {α : Type} (f : LocalStore → α × LocalStore) : StateT Site m α := modifyGet fun s ↦
  let (a, store) := f s.store
  (a, { s with store })

def reading : StateT Site m Instant := return (← get).clock

def recordStore : RecordStore (StateT Site m) :=
  (LocalStore.toRecordStore reading onStore).cued nextCue

def emit (e : Event) : StateT Site m Unit := modify fun s ↦
  { s with counters := s.counters.record e, log := s.log ++ [e] }

def worker? (name : String) : StateT Site m (Option Worker) := return (← get).workers.get? name

def isOn (name : String) : StateT Site m Bool := return !(← get).off.contains name

def freshId : StateT Site m JobId := modifyGet fun s ↦
  let (id, ids) := s.ids.next (s.wall / 1_000_000)
  (id, { s with ids })

def keep (job : Job) : StateT Site m Unit := modify fun s ↦
  { s with rescheduled := s.rescheduled ++ [job] }

def host (distance : Distance Act) (reschedule? : Option (Job → Act (Except String Unit))) :
    Host Act where
  store := recordStore
  distance
  now
  emit
  freshId
  reschedule?

/-- The gate of the site, which measures positions in the log and keeps the jobs that are to run
again. -/
def gate (settings : Settings) : Gate Act where
  settings
  host := host .lsn (some fun job ↦ do keep job; pure (.ok ()))
  worker?
  isOn

end Site

end UniqueJobs
