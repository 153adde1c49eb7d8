import UniqueJobs.Job.Basic
import UniqueJobs.Json.Printer
import UniqueJobs.Json.Reader
import UniqueJobs.Json.Record

/-!
Jobs as documents. What is absent or empty is left out, and a date is cut down to its whole second.
-/

namespace UniqueJobs.Job

def fieldNames : List String :=
  ["class", "args", "jid", "queue", "at", "wal_locations", "idempotency_key", "duplicate-of",
    "dedup_wal_locations"]

/-- A member that is left out when there is nothing to say. -/
def memberOf? {α : Type} (name : String) (write : α → Json) : Option α → List (String × Json)
  | some x => [(name, write x)]
  | none => []

def textsMember (name : String) (d : Dictionary String) : List (String × Json) :=
  if d.isEmpty then [] else [(name, Json.ofTexts d)]

def toJson (j : Job) : Json :=
  .object <|
    [("class", .string j.worker), ("args", .array (j.args.map (·.json))),
      ("jid", .string j.id.text), ("queue", .string j.queue)] ++
    memberOf? "at" (fun t : Timestamp ↦ .int t.secs) j.runAt ++
    textsMember "wal_locations" j.locations ++
    memberOf? "idempotency_key" .string j.key ++
    memberOf? "duplicate-of" (fun id : JobId ↦ .string id.text) j.duplicateOf ++
    textsMember "dedup_wal_locations" j.latest

def ofJson? (doc : Json) : Option Job := do
  let f ← Json.fields? fieldNames doc
  let worker ← f.get "class" Json.text?
  let args ← f.get "args" Json.values?
  let id ← f.get "jid" Json.text?
  let queue ← f.getD "queue" Json.text? defaultQueue
  let runAt ← f.getD "at" (Json.optional? Json.timestamp?) none
  let locations ← f.getD "wal_locations" Json.texts? .empty
  let key ← f.getD "idempotency_key" (Json.optional? Json.text?) none
  let duplicateOf ← f.getD "duplicate-of" (Json.optional? Json.text?) none
  let latest ← f.getD "dedup_wal_locations" Json.texts? .empty
  some ⟨worker, args, ⟨id⟩, queue, runAt, locations, key, duplicateOf.map .mk, latest⟩

def wire (j : Job) : String := j.toJson.compact

def ofWire? (text : String) : Option Job := (Json.read? Json.depthLimit text).bind ofJson?

def argsOfText? (text : String) : Option (List Value) :=
  (Json.read? Json.depthLimit text).bind Json.values?

end UniqueJobs.Job
