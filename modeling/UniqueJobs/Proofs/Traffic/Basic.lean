import UniqueJobs.Proofs.Passage.Watched
import UniqueJobs.Site

/-!
Traffic through the gate of one site: jobs are scheduled and performed one after the other, and more
of them inside the continuations, while the clocks go on and the store is switched off and on or told
to refuse calls. Every call of the store is glimpsed, with the site before and after it.
-/

namespace UniqueJobs

/-- Who calls the store: an instance, on its passage on one side of the queue. Each passage has a
place of its own in the traffic. -/
structure Caller where
  stage : Stage
  id : JobId
  place : List Bool
  deriving DecidableEq

structure Glimpse where
  caller : Caller
  before : Site
  after : Site

abbrev Scene := StateT Site (StateT (List Glimpse) Option)

namespace Scene

variable {α β : Type}

def glimpse (caller : Caller) (s s' : Site) : StateT (List Glimpse) Option Unit :=
  modify (· ++ [⟨caller, s, s'⟩])

def unseen (x : Site.Act α) : Scene α := fun s ↦ StateT.lift (x.run s)

def seen (caller : Caller) (x : Site.Act α) : Scene α := fun s ↦ do
  let r ← StateT.lift (x.run s)
  glimpse caller s r.2
  pure r

/-- The host of the site as a caller has it, who measures locations by `measure`. -/
def host (measure : String → String → String → Except LsnError Int64) (caller : Caller) :
    Host Scene :=
  { (Site.host (fun config location baseline ↦ pure (measure config location baseline))
      (some fun job ↦ do Site.keep job; pure (.ok ()))).lift unseen with
    store := Site.recordStore.lift (seen caller) }

def gate (settings : Settings) (measure : String → String → String → Except LsnError Int64)
    (caller : Caller) : Gate Scene where
  settings
  host := host measure caller
  worker? name := unseen (Site.worker? name)
  isOn name := unseen (Site.isOn name)

end Scene

inductive Traffic
  | none
  /-- A job passes on one side, its continuation letting more traffic through before it ends. -/
  | pass (stage : Stage) (job : Job)
      (measure : String → String → String → Except LsnError Int64) (inside : Traffic)
      (finish : Job → Except String Unit × Job) (rest : Traffic)
  | wait (d : Duration) (rest : Traffic)
  | switch (available : Bool) (rest : Traffic)
  /-- After `skip` more calls of the kind, one is refused. -/
  | fail (kind : CallKind) (skip : Nat) (e : StoreError) (rest : Traffic)

namespace Traffic

/-- Let the traffic through, `place` being the way that led to it. -/
def run (settings : Settings) : Traffic → List Bool → Scene Unit
  | none, _ => pure ()
  | pass stage job measure inside finish rest, place => do
    let next : Continuation Scene String Unit := fun job ↦ do
      inside.run settings (true :: place)
      pure (finish job)
    let gate := Scene.gate settings measure ⟨stage, job.id, place⟩
    match stage with
    | .schedule => discard (gate.schedule job next)
    | .perform => discard (gate.perform job next)
    rest.run settings (false :: place)
  | wait d rest, place => do
    modify (Site.advance d)
    rest.run settings place
  | switch available rest, place => do
    modify fun s ↦ { s with store := s.store.setAvailable available }
    rest.run settings place
  | fail kind skip e rest, place => do
    modify fun s ↦ { s with cues := s.cues.push kind skip (.fail e) }
    rest.run settings place

def Of (settings : Settings) (worker : String) (k : JobKey) : Traffic → Prop
  | none => True
  | pass _ job _ inside _ rest => job.worker = worker ∧ (job.identify settings.keyspace).1 = k ∧
    inside.Of settings worker k ∧ rest.Of settings worker k
  | wait _ rest | switch _ rest | fail _ _ _ rest => rest.Of settings worker k

end Traffic

end UniqueJobs
