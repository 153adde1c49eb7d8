import UniqueJobs.Store.Basic

/-!
A store whose calls go wrong on cue. Each kind of call has a queue of cues; a call takes the first
one, and an empty queue lets it pass.
-/

namespace UniqueJobs

inductive CallKind
  | get
  | setIfAbsent
  | delete
  | batch
  | run
  deriving DecidableEq, Repr

/-- What is to become of a call. -/
inductive Cue
  | pass
  /-- It fails and does not reach the store. -/
  | fail (e : StoreError)
  /-- A batch that does not reach the store is answered all the same. -/
  | answer (replies : List Reply)
  deriving DecidableEq

/-- The cues still to come, those of all kinds in one line. -/
abbrev Cues := List (CallKind × Cue)

namespace Cues

/-- Let `skip` calls of a kind pass, then give the cue. -/
def push (cues : Cues) (kind : CallKind) (skip : Nat) (cue : Cue) : Cues :=
  cues ++ List.replicate skip (kind, .pass) ++ [(kind, cue)]

def pop (kind : CallKind) : Cues → Cue × Cues
  | [] => (.pass, [])
  | (k, cue) :: rest =>
    if k = kind then (cue, rest)
    else
      let (found, rest) := pop kind rest
      (found, (k, cue) :: rest)

end Cues

def RecordStore.cued {m : Type → Type} [Monad m] (next : CallKind → m Cue) (s : RecordStore m) :
    RecordStore m where
  get key := do
    match ← next .get with
    | .fail e => pure (.error e)
    | _ => s.get key
  setIfAbsent key value ttl := do
    match ← next .setIfAbsent with
    | .fail e => pure (.error e)
    | _ => s.setIfAbsent key value ttl
  delete keys := do
    match ← next .delete with
    | .fail e => pure (.error e)
    | _ => s.delete keys
  batch requests := do
    match ← next .batch with
    | .fail e => pure (.error e)
    | .answer replies => pure (.ok replies)
    | .pass => s.batch requests
  run procedure keys args := do
    match ← next .run with
    | .fail e => pure (.error e)
    | _ => s.run procedure keys args

end UniqueJobs
