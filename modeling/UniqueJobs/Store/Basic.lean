import UniqueJobs.Store.Procedure
import UniqueJobs.Time

/-!
The store of records, which all instances of a job share. `RecordStore m` is any store whose calls
run in the monad `m`: what holds for every such store holds for one that answers as it likes.
-/

namespace UniqueJobs

/-- One of several operations that a store carries out as one step. -/
inductive Request
  /-- Write a text that lives for a time, unless there is something under the key. -/
  | setIfAbsent (key value : String) (ttl : Duration)
  | get (key : String)
  /-- An item of a list, counted from the end if the index is negative. -/
  | item (key : String) (index : Int)
  | delete (keys : List String)
  /-- Add names to a set and let it live for the time at least. -/
  | addNames (key : String) (names : List String) (ttl : Duration)
  deriving DecidableEq

inductive Reply
  | set (written : Bool)
  | value (v : Option String)
  | deleted (count : Nat)
  /-- How many of the names were new. -/
  | added (count : Nat)
  deriving DecidableEq

def Reply.describe : Reply → String
  | .set written => if written then "Set(true)" else "Set(false)"
  | .value none => "Value(None)"
  | .value (some v) => s!"Value(Some({Text.quoted v}))"
  | .deleted count => s!"Deleted({count})"
  | .added count => s!"Added({count})"

inductive Outage
  | switchedOff
  | other (reason : String)
  deriving DecidableEq

def Outage.message : Outage → String
  | .switchedOff => "store marked unavailable"
  | .other reason => reason

inductive ReplyFault
  | notAValue (got : Reply)
  | truncated
  /-- A record was gone at once after it had been written. -/
  | vanished (key : String)
  | other (reason : String)
  deriving DecidableEq

def ReplyFault.message : ReplyFault → String
  | .notAValue got => s!"expected value, got {got.describe}"
  | .truncated => "batch reply truncated"
  | .vanished key => s!"{key} vanished inside its batch"
  | .other reason => reason

inductive StoreError
  | unavailable (why : Outage)
  | script (why : Procedure.Fault)
  | unexpectedReply (why : ReplyFault)
  /-- There is a record under the key, but of another kind. -/
  | wrongType (key : String)
  deriving DecidableEq

namespace StoreError

def message : StoreError → String
  | unavailable why => s!"key store unavailable: {why.message}"
  | script why => s!"script execution failed: {why.message}"
  | unexpectedReply why => s!"unexpected reply: {why.message}"
  | wrongType key => s!"wrong value type at key {key}"

/-- May the same call succeed if it is made again? -/
def retryable : StoreError → Bool
  | unavailable _ => true
  | _ => false

end StoreError

def Reply.toValue : Reply → Except StoreError (Option String)
  | .value v => .ok v
  | r => .error (.unexpectedReply (.notAValue r))

structure RecordStore (m : Type → Type) where
  get : String → m (Except StoreError (Option String))
  /-- Write a text unless there is something under the key; was it written? -/
  setIfAbsent : String → String → Duration → m (Except StoreError Bool)
  /-- Delete what is under the keys; how many were there? -/
  delete : List String → m (Except StoreError Nat)
  batch : List Request → m (Except StoreError (List Reply))
  run : Procedure → List String → List String → m (Except StoreError Unit)

def RecordStore.lift {m n : Type → Type} (f : {α : Type} → m α → n α) (s : RecordStore m) :
    RecordStore n where
  get key := f (s.get key)
  setIfAbsent key value ttl := f (s.setIfAbsent key value ttl)
  delete keys := f (s.delete keys)
  batch requests := f (s.batch requests)
  run procedure keys args := f (s.run procedure keys args)

end UniqueJobs
