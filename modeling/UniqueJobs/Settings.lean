import UniqueJobs.Json.Printer
import UniqueJobs.Json.Record
import UniqueJobs.Text.Blank
import UniqueJobs.Text.Numeral
import UniqueJobs.Text.Quoted

/-!
Settings, and how they are read from named variables. `Settings.load` takes the variables in a fixed
order and stops at the first one that is not valid.
-/

namespace UniqueJobs

/-- What to do with a job when the store of records cannot be asked about it. -/
inductive OutagePolicy
  | proceed
  | refuse
  deriving DecidableEq, Repr

namespace OutagePolicy

def name : OutagePolicy → String
  | proceed => "open"
  | refuse => "closed"

def toJson (p : OutagePolicy) : Json := .string p.name

def ofName? (s : String) : Option OutagePolicy :=
  match s with
  | "open" => some proceed
  | "closed" => some refuse
  | _ => none

def ofJson? (j : Json) : Option OutagePolicy := (Json.choice? j).bind ofName?

theorem ofJson?_toJson (p : OutagePolicy) : ofJson? p.toJson = some p := by cases p <;> rfl

end OutagePolicy

structure Settings where
  keyspace : String
  /-- How long a window is held if the worker does not say. -/
  window : Duration
  /-- How long the record of the furthest log position is kept. -/
  latestTtl : Duration
  storeUrl : String
  timeout : Duration
  policy : OutagePolicy
  deriving DecidableEq

namespace Settings

def default : Settings :=
  ⟨"jobguard", .ofSecs (6 * 60 * 60), .ofSecs 60, "redis://localhost:6379", .ofMillis 500, .proceed⟩

instance : Inhabited Settings := ⟨default⟩

def fieldNames : List String :=
  ["namespace", "duplicate_key_ttl", "wal_location_ttl", "redis_url", "request_timeout",
    "failure_policy"]

def toJson (s : Settings) : Json :=
  .object [("namespace", .string s.keyspace), ("duplicate_key_ttl", s.window.toJson),
    ("wal_location_ttl", s.latestTtl.toJson), ("redis_url", .string s.storeUrl),
    ("request_timeout", s.timeout.toJson), ("failure_policy", s.policy.toJson)]

def ofJson? (doc : Json) : Option Settings := do
  let f ← Json.fields? fieldNames doc
  let keyspace ← f.get "namespace" Json.text?
  let window ← f.get "duplicate_key_ttl" Json.duration?
  let latestTtl ← f.get "wal_location_ttl" Json.duration?
  let storeUrl ← f.get "redis_url" Json.text?
  let timeout ← f.get "request_timeout" Json.duration?
  let policy ← f.get "failure_policy" OutagePolicy.ofJson?
  some ⟨keyspace, window, latestTtl, storeUrl, timeout, policy⟩

theorem ofJson?_object (keyspace window latestTtl storeUrl timeout policy : Json) :
    ofJson? (.object [("namespace", keyspace), ("duplicate_key_ttl", window),
        ("wal_location_ttl", latestTtl), ("redis_url", storeUrl), ("request_timeout", timeout),
        ("failure_policy", policy)]) =
      (Json.text? keyspace).bind fun k ↦ (Json.duration? window).bind fun w ↦
        (Json.duration? latestTtl).bind fun l ↦ (Json.text? storeUrl).bind fun u ↦
          (Json.duration? timeout).bind fun t ↦ (OutagePolicy.ofJson? policy).bind fun p ↦
            some ⟨k, w, l, u, t, p⟩ := by
  simp [ofJson?, Json.fields?, Json.hasRepeats, fieldNames, Dictionary.ofList, Json.Fields.get]

theorem ofJson?_toJson (s : Settings) : ofJson? s.toJson = some s := by
  simp [toJson, ofJson?_object, Json.duration?_toJson, Json.text?, OutagePolicy.ofJson?_toJson]

inductive Var
  | keyspace
  | ownUrl
  | sharedUrl
  | window
  | latestTtl
  | timeout
  | policy
  deriving DecidableEq, Repr

def Var.name : Var → String
  | keyspace => "JOBGUARD_NAMESPACE"
  | ownUrl => "JOBGUARD_REDIS_URL"
  | sharedUrl => "REDIS_URL"
  | window => "JOBGUARD_DUPLICATE_KEY_TTL_SECS"
  | latestTtl => "JOBGUARD_WAL_LOCATION_TTL_SECS"
  | timeout => "JOBGUARD_REQUEST_TIMEOUT_MS"
  | policy => "JOBGUARD_FAILURE_POLICY"

def Var.all : List Var := [keyspace, ownUrl, sharedUrl, window, latestTtl, timeout, policy]

/-- The longest time that the variables may ask for, 366 days in seconds. -/
def maxTtlSecs : Nat := 366 * 24 * 60 * 60

inductive LoadFault
  | numeral (f : Text.NumeralFault)
  | ttlRange
  | notPositive
  | notAPolicy
  deriving DecidableEq

def LoadFault.message : LoadFault → String
  | .numeral f => f.message
  | .ttlRange => s!"must be between 1 and {maxTtlSecs} seconds"
  | .notPositive => "must be positive"
  | .notAPolicy => "expected `open` or `closed`"

structure LoadError where
  var : Var
  value : String
  fault : LoadFault
  deriving DecidableEq

def LoadError.message (e : LoadError) : String :=
  s!"invalid value for {e.var.name}: {Text.quoted e.value} ({e.fault.message})"

/-- A number below `2 ^ 64`, blanks around it being ignored. -/
def readNumber (var : Var) (value : String) : Except LoadError Nat :=
  match Text.readNat 10 (UInt64.size - 1) (Text.trim value.toList) with
  | .ok n => .ok n
  | .error f => .error ⟨var, value, .numeral f⟩

/-- A time in seconds. An error of range shows the number rather than the text it was read from. -/
def readTtl (var : Var) (value : String) : Except LoadError Duration :=
  match readNumber var value with
  | .error e => .error e
  | .ok n =>
    if 1 ≤ n ∧ n ≤ maxTtlSecs then .ok (.ofSecs n) else .error ⟨var, toString n, .ttlRange⟩

def readTimeout (var : Var) (value : String) : Except LoadError Duration :=
  match readNumber var value with
  | .error e => .error e
  | .ok n => if 1 ≤ n then .ok (.ofMillis n) else .error ⟨var, toString n, .notPositive⟩

def readPolicy (var : Var) (value : String) : Except LoadError OutagePolicy :=
  match OutagePolicy.ofName? (String.ofList (value.toList.map Char.toLower)) with
  | some p => .ok p
  | none => .error ⟨var, value, .notAPolicy⟩

def readOr {α : Type} (lookup : String → Option String) (var : Var)
    (read : Var → String → Except LoadError α) (missing : α) : Except LoadError α :=
  match lookup var.name with
  | some value => read var value
  | none => .ok missing

def load (lookup : String → Option String) : Except LoadError Settings := do
  let keyspace := (lookup Var.keyspace.name).getD default.keyspace
  let storeUrl := ((lookup Var.ownUrl.name).or (lookup Var.sharedUrl.name)).getD default.storeUrl
  let window ← readOr lookup .window readTtl default.window
  let latestTtl ← readOr lookup .latestTtl readTtl default.latestTtl
  let timeout ← readOr lookup .timeout readTimeout default.timeout
  let policy ← readOr lookup .policy readPolicy default.policy
  .ok ⟨keyspace, window, latestTtl, storeUrl, timeout, policy⟩

end Settings

end UniqueJobs
