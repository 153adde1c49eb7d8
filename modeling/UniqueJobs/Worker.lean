import UniqueJobs.Json.Printer
import UniqueJobs.Json.Record

/-!
What is known of a worker: whether its jobs may be taken for duplicates of one another, for how long
and in which way. `Strategy.ofWorker` is the rule that decides the way.
-/

namespace UniqueJobs

inductive Strategy
  /-- From scheduling until the job has run with success. -/
  | untilExecuting
  /-- From scheduling until the job has run, whatever the outcome. -/
  | untilExecuted
  | never
  deriving DecidableEq, Repr

structure StrategyError where
  name : String
  deriving DecidableEq

def StrategyError.message (e : StrategyError) : String :=
  s!"unknown deduplication strategy: {e.name}"

namespace Strategy

def name : Strategy → String
  | untilExecuting => "until_executing"
  | untilExecuted => "until_executed"
  | never => "none"

def parse (s : String) : Except StrategyError Strategy :=
  match s with
  | "until_executing" => .ok untilExecuting
  | "until_executed" => .ok untilExecuted
  | "none" => .ok never
  | s => .error ⟨s⟩

theorem parse_name (s : Strategy) : parse s.name = .ok s := by cases s <;> rfl

def locks : Strategy → Bool
  | never => false
  | _ => true

def toJson (s : Strategy) : Json := .string s.name

def ofJson? (j : Json) : Option Strategy := (Json.choice? j).bind fun s ↦ (parse s).toOption

theorem ofJson?_toJson (s : Strategy) : ofJson? s.toJson = some s := by cases s <;> rfl

end Strategy

inductive AfterDrop
  | forget
  /-- It runs once more after the instance that held the window. -/
  | runAgain
  deriving DecidableEq, Repr

namespace AfterDrop

def name : AfterDrop → String
  | forget => "drop"
  | runAgain => "reschedule_once"

def toJson (a : AfterDrop) : Json := .string a.name

def ofJson? (j : Json) : Option AfterDrop :=
  (Json.choice? j).bind fun s ↦
    match s with
    | "drop" => some forget
    | "reschedule_once" => some runAgain
    | _ => none

theorem ofJson?_toJson (a : AfterDrop) : ofJson? a.toJson = some a := by cases a <;> rfl

end AfterDrop

/-- How duplicates among the jobs of a worker are dealt with. -/
structure Uniqueness where
  enabled : Bool
  /-- The name of a strategy; empty for the usual one. -/
  strategy : String
  /-- How long the window is held at most; absent for the usual time. -/
  window : Option Duration
  /-- Are jobs put off to a later date looked at when they are scheduled? -/
  includingScheduled : Bool
  afterDrop : AfterDrop
  deriving DecidableEq

namespace Uniqueness

def default : Uniqueness := ⟨true, "", none, false, .forget⟩

instance : Inhabited Uniqueness := ⟨default⟩

def fieldNames : List String :=
  ["enabled", "strategy", "ttl", "including_scheduled", "if_deduplicated"]

def toJson (u : Uniqueness) : Json :=
  .object [("enabled", .bool u.enabled), ("strategy", .string u.strategy),
    ("ttl", (u.window.map Duration.toJson).getD .null),
    ("including_scheduled", .bool u.includingScheduled), ("if_deduplicated", u.afterDrop.toJson)]

def ofJson? (doc : Json) : Option Uniqueness := do
  let f ← Json.fields? fieldNames doc
  let enabled ← f.get "enabled" Json.bool?
  let strategy ← f.getD "strategy" Json.text? ""
  let window ← f.getD "ttl" (Json.optional? Json.duration?) none
  let includingScheduled ← f.getD "including_scheduled" Json.bool? false
  let afterDrop ← f.getD "if_deduplicated" AfterDrop.ofJson? .forget
  some ⟨enabled, strategy, window, includingScheduled, afterDrop⟩

theorem ofJson?_toJson (u : Uniqueness) : ofJson? u.toJson = some u := by
  have hw := Json.optional?_getD_null Json.duration?_toJson
    (fun d ↦ by simp [Duration.toJson]) u.window
  simp [ofJson?, toJson, Json.fields?, Json.hasRepeats, fieldNames, Dictionary.ofList,
    Json.Fields.get, Json.Fields.getD, Json.bool?, Json.text?, AfterDrop.ofJson?_toJson, hw]

end Uniqueness

/-- A worker. Only jobs that may run twice without harm can be told apart from their duplicates
safely, so a worker that is not idempotent is left alone. -/
structure Worker where
  idempotent : Bool
  uniqueness : Uniqueness
  deriving DecidableEq

namespace Worker

/-- What is assumed of a worker that nothing is known of. -/
def unknown : Worker := ⟨false, .default⟩

instance : Inhabited Worker := ⟨unknown⟩

def newIdempotent : Worker := ⟨true, .default⟩

def withStrategy (w : Worker) (name : String) : Worker :=
  { w with uniqueness := { w.uniqueness with strategy := name } }

def withWindow (w : Worker) (d : Duration) : Worker :=
  { w with uniqueness := { w.uniqueness with window := some d } }

def includingScheduled (w : Worker) : Worker :=
  { w with uniqueness := { w.uniqueness with includingScheduled := true } }

def runAgain (w : Worker) : Worker :=
  { w with uniqueness := { w.uniqueness with afterDrop := .runAgain } }

def withoutUniqueness (w : Worker) : Worker :=
  { w with uniqueness := { w.uniqueness with enabled := false } }

def toJson (w : Worker) : Json :=
  .object [("idempotent", .bool w.idempotent), ("deduplication", w.uniqueness.toJson)]

def ofJson? (doc : Json) : Option Worker := do
  let f ← Json.fields? ["idempotent", "deduplication"] doc
  let idempotent ← f.get "idempotent" Json.bool?
  let uniqueness ← f.getD "deduplication" Uniqueness.ofJson? .default
  some ⟨idempotent, uniqueness⟩

theorem ofJson?_toJson (w : Worker) : ofJson? w.toJson = some w := by
  simp [ofJson?, toJson, Json.fields?, Json.hasRepeats, Dictionary.ofList, Json.Fields.get,
    Json.Fields.getD, Json.bool?, Uniqueness.ofJson?_toJson]

/-- Are duplicates among the worker's jobs looked for, the switch of the worker being `on`? -/
def deduplicates (w : Option Worker) (on : Bool) : Bool :=
  match w with
  | some w => w.idempotent && w.uniqueness.enabled && on
  | none => false

end Worker

/-- The strategy for a worker's jobs: none unless duplicates are looked for, then the one the worker
names, and `untilExecuting` where it names none that is known. -/
def Strategy.ofWorker (w : Option Worker) (on : Bool) : Strategy :=
  match w with
  | some w =>
    if Worker.deduplicates (some w) on then
      match Strategy.parse w.uniqueness.strategy with
      | .ok s => s
      | .error _ => .untilExecuting
    else .never
  | none => .never

/-- The name that `Strategy.ofWorker` had to pass over, if the worker gave an unknown one. -/
def Strategy.passedOver? (w : Option Worker) (on : Bool) : Option String :=
  match w with
  | some w =>
    if Worker.deduplicates (some w) on && !w.uniqueness.strategy.isEmpty then
      match Strategy.parse w.uniqueness.strategy with
      | .ok _ => none
      | .error e => some e.name
    else none
  | none => none

end UniqueJobs
