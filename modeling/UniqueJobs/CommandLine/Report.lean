import UniqueJobs.CommandLine.Arguments
import UniqueJobs.Job.Key
import UniqueJobs.Job.Wire
import UniqueJobs.Settings
import UniqueJobs.Store.Address

/-!
What an operator is shown of a logical job: the names of its records, or what they hold. Nothing is
written to the store.
-/

namespace UniqueJobs.CommandLine

inductive ReportError
  | settings (e : Settings.LoadError)
  /-- The text of the arguments is no array. -/
  | args (text : String)
  | address (url : String) (e : StoreError)
  | reading (e : StoreError)
  | reply (e : StoreError)
  | truncated
  deriving DecidableEq

def ReportError.message : ReportError → String
  | .settings e => s!"loading configuration: {e.message}"
  | .args text => s!"--args must be a JSON array, got {text}"
  | .address url e => s!"connecting to {url}: {e.message}"
  | .reading e => s!"reading deduplication records: {e.message}"
  | .reply e => e.message
  | .truncated => "truncated reply"

def JobQuery.key (q : JobQuery) (keyspace : String) : Except ReportError JobKey :=
  match Job.argsOfText? q.args with
  | some args => .ok (JobKey.derive keyspace q.queue q.worker args)
  | none => .error (.args q.args)

def lines (l : List String) : String := String.join (l.map (· ++ "\n"))

structure Naming where
  key : JobKey
  configs : NameSet

namespace Naming

def text (n : Naming) : String :=
  lines <|
    [s!"key:              {n.key.text}", s!"deduplicate_flag: {n.key.flag}",
      s!"wal_configs:      {n.key.configs}"] ++
    n.configs.keys.flatMap fun config ↦
      [s!"[{config}]", s!"  existing_wal_location: {n.key.baseline config}",
        s!"  wal_location:          {n.key.latest config}"]

def toJson (n : Naming) : Json :=
  .object [("key", .string n.key.text), ("deduplicate_flag", .string n.key.flag),
    ("wal_configs", .string n.key.configs),
    ("wal", .object (n.configs.keys.map fun config ↦
      (config, .object [("existing_wal_location", .string (n.key.baseline config)),
        ("wal_location", .string (n.key.latest config))])))]

end Naming

structure Inspection where
  key : JobKey
  winner : Option String
  /-- Is the job to run again for a dropped duplicate? -/
  flagged : Bool
  baselines : Dictionary (Option String)
  latest : Dictionary (Option String)

namespace Inspection

def shown (v : Option String) : String := v.getD "-"

def text (i : Inspection) : String :=
  lines <|
    [s!"key:                {i.key.text}", s!"winner:             {shown i.winner}",
      s!"reschedule pending: {i.flagged}"] ++
    i.baselines.entries.flatMap fun (config, baseline) ↦
      ["[" ++ config ++ "]", "  existing: " ++ shown baseline,
        "  latest:   " ++ shown (i.latest.get? config).join]

def ofText? (v : Option String) : Json := (v.map .string).getD .null

def toJson (i : Inspection) : Json :=
  let positions (d : Dictionary (Option String)) : Json :=
    .object (d.entries.map fun e ↦ (e.1, ofText? e.2))
  .object [("key", .string i.key.text), ("winner", ofText? i.winner),
    ("reschedule_pending", .bool i.flagged), ("existing_wal_locations", positions i.baselines),
    ("latest_wal_locations", positions i.latest)]

/-- The requests for the records, two for every config. -/
def requests (key : JobKey) (configs : List String) : List Request :=
  [.get key.text, .get key.flag] ++
    configs.flatMap fun config ↦ [.get (key.baseline config), .item (key.latest config) 0]

def next : List Reply → Except ReportError (Option String × List Reply)
  | [] => .error .truncated
  | reply :: rest =>
    match reply.toValue with
    | .ok v => .ok (v, rest)
    | .error e => .error (.reply e)

def readPositions (i : Inspection) : List String → List Reply → Except ReportError Inspection
  | [], _ => .ok i
  | config :: configs, replies => do
    let (baseline, replies) ← next replies
    let (latest, replies) ← next replies
    readPositions
      { i with
        baselines := i.baselines.insert config baseline
        latest := i.latest.insert config latest }
      configs replies

def read (key : JobKey) (configs : List String) (replies : List Reply) :
    Except ReportError Inspection := do
  let (winner, replies) ← next replies
  let (flag, replies) ← next replies
  readPositions ⟨key, winner, flag.isSome, .empty, .empty⟩ configs replies

end Inspection

variable {m : Type → Type} [Monad m]

def inspect (store : RecordStore m) (key : JobKey) (configs : List String) :
    m (Except ReportError Inspection) := do
  match ← store.batch (Inspection.requests key configs) with
  | .error e => pure (.error (.reading e))
  | .ok replies => pure (Inspection.read key configs replies)

def render (json : Bool) (text : String) (doc : Json) : String :=
  if json then doc.pretty ++ "\n" else text

/-- The report that an invocation asks for. The settings come from variables, and `dial` is the store
at an address. -/
def report (lookup : String → Option String) (dial : Address → Duration → RecordStore m)
    (i : Invocation) : m (Except ReportError String) := do
  match Settings.load lookup with
  | .error e => pure (.error (.settings e))
  | .ok settings =>
    match i.query.key (i.keyspace.getD settings.keyspace) with
    | .error e => pure (.error e)
    | .ok key =>
      match i.action with
      | .key =>
        let n : Naming := ⟨key, .ofNames i.query.configs⟩
        pure (.ok (render i.json n.text n.toJson))
      | .inspect url =>
        let url := url.getD settings.storeUrl
        match Address.parse? url with
        | none => pure (.error (.address url (.unavailable (.other "not an address"))))
        | some address => do
          match ← inspect (dial address settings.timeout) key i.query.configs with
          | .error e => pure (.error e)
          | .ok found => pure (.ok (render i.json found.text found.toJson))

end UniqueJobs.CommandLine
