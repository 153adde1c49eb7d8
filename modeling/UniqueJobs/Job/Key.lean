import UniqueJobs.Digest.Sha256
import UniqueJobs.Job.Basic
import UniqueJobs.Json.Printer

/-!
The key of a logical job and the names of the records kept under it. Two jobs have the same key if
they agree on queue, worker and arguments; the worker and the arguments enter by their digest.
-/

namespace UniqueJobs

/-- What the digest of a logical job covers: the worker, a colon, the arguments as a document. -/
def Job.identity (worker : String) (args : List Value) : String :=
  worker ++ ":" ++ (Json.array (args.map (·.json))).compact

def Job.digest (worker : String) (args : List Value) : String :=
  Digest.sha256 (Digest.utf8 (Job.identity worker args))

/-- The key of a logical job, which also names the record of the instance holding its window. -/
structure JobKey where
  text : String
  deriving DecidableEq

namespace JobKey

def ofDigest (keyspace queue digest : String) : JobKey :=
  ⟨keyspace ++ ":duplicate:" ++ queue ++ ":" ++ digest⟩

def derive (keyspace queue worker : String) (args : List Value) : JobKey :=
  ofDigest keyspace queue (Job.digest worker args)

/-- The record of the position a config stood at when the window was claimed. -/
def baseline (k : JobKey) (config : String) : String :=
  k.text ++ ":" ++ config ++ ":existing_wal_location"

/-- The record of the furthest position seen for a config, with its distance from the baseline. -/
def latest (k : JobKey) (config : String) : String := k.text ++ ":" ++ config ++ ":wal_location"

def flag (k : JobKey) : String := k.text ++ ":deduplicate_flag"

def configs (k : JobKey) : String := k.text ++ ":wal_configs"

end JobKey

/-- The key of a job: the one it carries, else the derived one, which it carries from then on. -/
def Job.identify (keyspace : String) (j : Job) : JobKey × Job :=
  match j.key with
  | some k => (⟨k⟩, j)
  | none =>
    let k := JobKey.derive keyspace j.queue j.worker j.args
    (k, { j with key := some k.text })

end UniqueJobs
