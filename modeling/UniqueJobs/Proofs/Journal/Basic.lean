import UniqueJobs.Proofs.Traffic.Basic

/-!
Traffic with a journal. What happens is written down in its order: each call of the store with what
it asks and whether it fails, each job as it is handed to its continuation and as the continuation
ends, the outcome of each passage, and the times of waiting.
-/

namespace UniqueJobs

/-- What is asked of the store in one call. -/
inductive StoreCall
  | get (name : String)
  | setIfAbsent (name value : String) (ttl : Duration)
  | delete (names : List String)
  | batch (requests : List Request)
  | run (procedure : Procedure) (keys args : List String)

inductive Note
  | called (caller : Caller) (call : StoreCall) (failure : Option StoreError) (before after : Site)
  | handed (caller : Caller) (job : Job) (site : Site)
  | finished (caller : Caller) (result : Except String Unit) (site : Site)
  | scheduled (caller : Caller) (result : Except (Failure String) (Scheduled Unit)) (site : Site)
  | performed (caller : Caller) (result : Except (Failure String) (Performed Unit)) (site : Site)
  | waited (before after : Site)

namespace Note

def caller? : Note → Option Caller
  | called caller .. | handed caller .. | finished caller .. | scheduled caller ..
  | performed caller .. => some caller
  | waited .. => none

def before : Note → Site
  | called _ _ _ before _ => before
  | handed _ _ site | finished _ _ site | scheduled _ _ site | performed _ _ site => site
  | waited before _ => before

def after : Note → Site
  | called _ _ _ _ after => after
  | handed _ _ site | finished _ _ site | scheduled _ _ site | performed _ _ site => site
  | waited _ after => after

end Note

inductive Verdict
  | passed
  | failed
  | barred (winner : JobId)
  | refused
  deriving DecidableEq

/-- What a note says, without the sites, the job and the wording of failures. -/
inductive Headline
  | called (caller : Caller) (failed : Bool)
  | handed (caller : Caller)
  | finished (caller : Caller) (failed : Bool)
  | scheduled (caller : Caller) (verdict : Verdict)
  | performed (caller : Caller) (verdict : Verdict)
  | waited
  deriving DecidableEq

def Note.headline : Note → Headline
  | called caller _ failure _ _ => .called caller failure.isSome
  | handed caller _ _ => .handed caller
  | finished caller (.ok ()) _ => .finished caller false
  | finished caller (.error _) _ => .finished caller true
  | scheduled caller (.ok (.enqueued ())) _ => .scheduled caller .passed
  | scheduled caller (.ok (.dropped winner)) _ => .scheduled caller (.barred winner)
  | scheduled caller (.error (.job _)) _ => .scheduled caller .failed
  | scheduled caller (.error (.refused _)) _ => .scheduled caller .refused
  | performed caller (.ok (.executed ())) _ => .performed caller .passed
  | performed caller (.ok (.skipped winner)) _ => .performed caller (.barred winner)
  | performed caller (.error (.job _)) _ => .performed caller .failed
  | performed caller (.error (.refused _)) _ => .performed caller .refused
  | waited .. => .waited

def Headline.isCall : Headline → Bool
  | called .. => true
  | _ => false

def Headline.caller? : Headline → Option Caller
  | called caller _ | handed caller | finished caller _ | scheduled caller _ | performed caller _ =>
    some caller
  | waited => none

theorem Note.caller?_headline (n : Note) : n.headline.caller? = n.caller? := by
  cases n with
  | called | handed | waited => rfl
  | finished _ result => cases result <;> rfl
  | scheduled _ result | performed _ result =>
    rcases result with (_ | _) | (_ | _) <;> rfl

theorem Note.eq_finished {n : Note} {caller : Caller} (h : n.headline = .finished caller true) :
    ∃ e s, n = .finished caller (.error e) s := by
  cases n with
  | finished caller result s =>
    cases result with
    | ok u => cases h
    | error e =>
      cases h
      exact ⟨e, s, rfl⟩
  | scheduled _ result | performed _ result =>
    rcases result with (_ | _) | (_ | _) <;> cases h
  | called | handed | waited => cases h

theorem Note.eq_dropped {n : Note} {caller : Caller} {winner : JobId}
    (h : n.headline = .scheduled caller (.barred winner)) :
    ∃ s, n = .scheduled caller (.ok (.dropped winner)) s := by
  cases n with
  | scheduled caller result s =>
    rcases result with (_ | _) | (_ | _) <;> cases h
    exact ⟨s, rfl⟩
  | finished _ result => cases result <;> cases h
  | performed _ result =>
    rcases result with (_ | _) | (_ | _) <;> cases h
  | called | handed | waited => cases h

/-- Has every note a relation to the notes before it, the first of which stand in `log`? -/
def Attested (Q : List Note → Note → Prop) : List Note → List Note → Prop
  | _, [] => True
  | log, n :: rest => Q log n ∧ Attested Q (log ++ [n]) rest

namespace Attested

variable {Q : List Note → Note → Prop} {log notes more : List Note} {n : Note}

theorem of_forall (h : ∀ log, ∀ n ∈ notes, Q log n) : Attested Q log notes := by
  induction notes generalizing log with
  | nil => trivial
  | cons n rest ih =>
    obtain ⟨hn, hrest⟩ := forall_and.mp fun log ↦ List.forall_mem_cons.mp (h log)
    exact ⟨hn log, ih hrest⟩

theorem append (h : Attested Q log notes) (h' : Attested Q (log ++ notes) more) :
    Attested Q log (notes ++ more) := by
  induction notes generalizing log with
  | nil => rwa [List.append_nil] at h'
  | cons n rest ih =>
    refine ⟨h.1, ih h.2 ?_⟩
    rwa [List.append_assoc, List.singleton_append]

theorem at_note (h : Attested Q log (notes ++ n :: more)) : Q (log ++ notes) n := by
  induction notes generalizing log with
  | nil =>
    rw [List.append_nil]
    exact h.1
  | cons m rest ih =>
    have hn := ih h.2
    rwa [List.append_assoc, List.singleton_append] at hn

end Attested

/-- Are the notes from `log` on attested, and does an account of all of them fit the site? -/
def Ledger (Q : List Note → Note → Prop) (I : List Note → Site → Prop) (log notes : List Note)
    (s : Site) : Prop :=
  Attested Q log notes ∧ I (log ++ notes) s

namespace Ledger

variable {Q : List Note → Note → Prop} {I : List Note → Site → Prop} {log notes more : List Note}
  {n : Note} {s s' : Site}

theorem nil (h : I log s) : Ledger Q I log [] s := by
  refine ⟨trivial, ?_⟩
  rwa [List.append_nil]

theorem one (hn : Q log n) (h : I (log ++ [n]) s) : Ledger Q I log [n] s := ⟨⟨hn, trivial⟩, h⟩

theorem append (h : Ledger Q I log notes s)
    (h' : I (log ++ notes) s → Ledger Q I (log ++ notes) more s') :
    Ledger Q I log (notes ++ more) s' := by
  obtain ⟨hmore, hlast⟩ := h' h.2
  rw [List.append_assoc] at hlast
  exact ⟨h.1.append hmore, hlast⟩

end Ledger

/-- Does the second one call from inside the continuation of the first? -/
def Caller.Encloses (outer inner : Caller) : Prop := true :: outer.place <:+ inner.place

instance (outer inner : Caller) : Decidable (outer.Encloses inner) :=
  inferInstanceAs (Decidable (true :: outer.place <:+ inner.place))

abbrev Journal := StateT Site (StateT (List Note) Option)

namespace Journal

variable {α ε : Type}

def write (n : Note) : StateT (List Note) Option Unit := modify (· ++ [n])

def enter (f : Site → Note) : Journal Unit := fun s ↦ do
  write (f s)
  pure ((), s)

def unseen (x : Site.Act α) : Journal α := fun s ↦ StateT.lift (x.run s)

def failureOf : Except ε α → Option ε
  | .ok _ => none
  | .error e => some e

def seen (caller : Caller) (call : StoreCall) (x : Site.Act (Except StoreError α)) :
    Journal (Except StoreError α) := fun s ↦ do
  let r ← StateT.lift (x.run s)
  write (.called caller call (failureOf r.1) s r.2)
  pure r

def store (caller : Caller) : RecordStore Journal where
  get name := seen caller (.get name) (Site.recordStore.get name)
  setIfAbsent name value ttl :=
    seen caller (.setIfAbsent name value ttl) (Site.recordStore.setIfAbsent name value ttl)
  delete names := seen caller (.delete names) (Site.recordStore.delete names)
  batch requests := seen caller (.batch requests) (Site.recordStore.batch requests)
  run procedure keys args :=
    seen caller (.run procedure keys args) (Site.recordStore.run procedure keys args)

def host (measure : String → String → String → Except LsnError Int64) (caller : Caller) :
    Host Journal :=
  { (Site.host (fun config location baseline ↦ pure (measure config location baseline))
      (some fun job ↦ do Site.keep job; pure (.ok ()))).lift unseen with
    store := store caller }

def gate (settings : Settings) (measure : String → String → String → Except LsnError Int64)
    (caller : Caller) : Gate Journal where
  settings
  host := host measure caller
  worker? name := unseen (Site.worker? name)
  isOn name := unseen (Site.isOn name)

end Journal

/-- A job that comes to the gate, with what its continuation makes of it. -/
structure Arrival where
  caller : Caller
  job : Job
  finish : Job → Except String Unit × Job

namespace Traffic

open Journal

/-- Let the traffic through and keep the journal, `place` being the way that led to it. -/
def journal (settings : Settings) : Traffic → List Bool → Journal Unit
  | none, _ => pure ()
  | pass stage job measure inside finish rest, place => do
    let caller : Caller := ⟨stage, job.id, place⟩
    let next : Continuation Journal String Unit := fun job ↦ do
      enter (.handed caller job)
      inside.journal settings (true :: place)
      enter (.finished caller (finish job).1)
      pure (finish job)
    match stage with
    | .schedule => do
      let (result, _) ← (gate settings measure caller).schedule job next
      enter (.scheduled caller result)
    | .perform => do
      let (result, _) ← (gate settings measure caller).perform job next
      enter (.performed caller result)
    rest.journal settings (false :: place)
  | wait d rest, place => do
    enter fun s ↦ .waited s (s.advance d)
    modify (Site.advance d)
    rest.journal settings place
  | switch available rest, place => do
    modify fun s ↦ { s with store := s.store.setAvailable available }
    rest.journal settings place
  | fail kind skip e rest, place => do
    modify fun s ↦ { s with cues := s.cues.push kind skip (.fail e) }
    rest.journal settings place

def journal? (settings : Settings) (t : Traffic) (s : Site) : Option (List Note × Site) :=
  (((t.journal settings []).run s).run []).map fun r ↦ (r.2, r.1.2)

theorem exists_note_of_outline {β : Type} {f : Note → β} {settings : Settings} {t : Traffic}
    {s : Site} {first last : List β} {b : β}
    (hrun : (t.journal? settings s).map (fun r ↦ r.1.map f) = some (first ++ b :: last)) :
    ∃ before n after s', t.journal? settings s = some (before ++ n :: after, s') ∧
      before.map f = first ∧ f n = b ∧ after.map f = last := by
  obtain ⟨⟨log, s'⟩, hjournal, hlog⟩ := Option.map_eq_some_iff.mp hrun
  obtain ⟨before, rest, rfl, hbefore, hrest⟩ := List.map_eq_append_iff.mp hlog
  obtain ⟨n, after, rfl, hn, hafter⟩ := List.map_eq_cons_iff.mp hrest
  exact ⟨before, n, after, s', hjournal, hbefore, hn, hafter⟩

/-- Is the traffic made of passages with a property and of waiting alone? -/
def Passes (P : Stage → Job → (String → String → String → Except LsnError Int64) → Prop) :
    Traffic → Prop
  | none => True
  | pass stage job measure inside _ rest => P stage job measure ∧ inside.Passes P ∧ rest.Passes P
  | wait _ rest => rest.Passes P
  | switch .. | fail .. => False

/-- All that comes to the gate in the traffic, `place` being the way that led to it. -/
def arrivals : Traffic → List Bool → List Arrival
  | none, _ => []
  | pass stage job _ inside finish rest, place =>
    ⟨⟨stage, job.id, place⟩, job, finish⟩ ::
      (inside.arrivals (true :: place) ++ rest.arrivals (false :: place))
  | wait _ rest, place | switch _ rest, place | fail _ _ _ rest, place => rest.arrivals place

/-- The time that the traffic takes if every continuation runs. -/
def duration : Traffic → Nat
  | none => 0
  | pass _ _ _ inside _ rest => inside.duration + rest.duration
  | wait d rest => d.nanos + rest.duration
  | switch _ rest | fail _ _ _ rest => rest.duration

end Traffic

end UniqueJobs
