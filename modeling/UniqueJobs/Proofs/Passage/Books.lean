import UniqueJobs.Gate
import UniqueJobs.Proofs.Claimant.Replies
import UniqueJobs.Proofs.Passage.Watched

/-!
A gate that keeps books. On one page stand the events, which the counters count, on the other what
has been seen of them from outside: how the store, the distances and whoever takes jobs that are to
run again have answered, and what has become of each job. The answers are any answers.
`Fact.counter?` says which counter a fact belongs to, and after each operation of a claimant it is
said which one is due if the operation has failed.
-/

namespace UniqueJobs

inductive Counter
  | dropped
  | skipped
  | storeErrors
  | locationFailures
  | flagFailures
  | rescheduled
  deriving DecidableEq

def Event.counter? : Event → Option Counter
  | .dropped .. => some .dropped
  | .skipped .. => some .skipped
  | .checkFailed .. | .releaseFailed .. => some .storeErrors
  | .locationsFailed .. => some .locationFailures
  | .flagFailed .. => some .flagFailures
  | .rescheduled .. => some .rescheduled
  | .passedOver .. | .entered .. | .checked .. | .released .. | .noRescheduler ..
  | .rescheduleFailed .. => none

namespace Counters

def get (c : Counters) : Counter → UInt64
  | .dropped => c.dropped
  | .skipped => c.skipped
  | .storeErrors => c.storeErrors
  | .locationFailures => c.locationFailures
  | .flagFailures => c.flagFailures
  | .rescheduled => c.rescheduled

/-- The counters after some events, from zero on. -/
def after (events : List Event) : Counters := events.foldl record zero

theorem get_record (c : Counters) (e : Event) (n : Counter) :
    (c.record e).get n = c.get n + UInt64.ofNat (e.counter?.toList.count n) := by
  cases e <;> cases n <;> simp [record, get, Event.counter?]

theorem get_foldl_record (c : Counters) (events : List Event) (n : Counter) :
    (events.foldl record c).get n =
      c.get n + UInt64.ofNat ((events.filterMap Event.counter?).count n) := by
  induction events generalizing c with
  | nil => simp
  | cons e rest ih =>
    have hcount : ((e :: rest).filterMap Event.counter?).count n =
        e.counter?.toList.count n + (rest.filterMap Event.counter?).count n := by
      cases he : e.counter? <;> simp [he, List.count_cons, Nat.add_comm]
    rw [List.foldl_cons, ih, get_record, hcount, UInt64.ofNat_add, UInt64.add_assoc]

end Counters

/-- Is a batch carried out, with a value in reply to each of its reads that is replied to? A claim
asks for a reply to each of them, and for a holder. -/
def answers (requests : List Request) : Except StoreError (List Reply) → Bool
  | .error _ => false
  | .ok replies =>
    let reads := requests.countP Request.reads
    let found := (replies.drop (requests.length - reads)).take reads
    found.all Reply.isValue &&
      (!Passage.claims requests || reads ≤ found.length && found.head? ≠ some (.value none))

/-- What is seen from outside, with the side of the queue that the gate is used on. -/
inductive Fact
  | batch (stage : Stage) (requests : List Request) (answer : Except StoreError (List Reply))
  | run (stage : Stage) (procedure : Procedure) (answer : Except StoreError Unit)
  | get (stage : Stage) (answer : Except StoreError (Option String))
  | setIfAbsent (stage : Stage) (answer : Except StoreError Bool)
  | delete (stage : Stage) (answer : Except StoreError Nat)
  | measured (stage : Stage) (answer : Except LsnError Int64)
  | handedOver (stage : Stage) (answer : Except String Unit)
  | scheduled (dropped : Bool)
  | performed (skipped : Bool)

namespace Fact

/-- Has the store failed, or the measuring of a distance? -/
def failed : Fact → Bool
  | batch _ requests answer => !answers requests answer
  | run _ _ (.error _) | get _ (.error _) | setIfAbsent _ (.error _) | delete _ (.error _)
  | measured _ (.error _) => true
  | _ => false

/-- The counter that a fact belongs to, by its side of the queue. -/
def counter? : Fact → Option Counter
  | scheduled true => some .dropped
  | performed true => some .skipped
  | batch stage requests answer =>
    if answers requests answer = true then none
    else if Passage.claims requests = true then some .storeErrors
    else if stage = .perform then some .locationFailures
    else none
  | run .perform .release (.error _) => some .storeErrors
  | run .schedule .advance (.error _) => some .locationFailures
  | measured .schedule (.error _) => some .locationFailures
  | setIfAbsent .schedule (.error _) => some .flagFailures
  | get .perform (.error _) => some .flagFailures
  | handedOver .perform (.ok ()) => some .rescheduled
  | _ => none

/-- What is seen of a job that has been scheduled. -/
def ofScheduled {ε α : Type} : Except (Failure ε) (Scheduled α) → Fact
  | .ok (.dropped _) => .scheduled true
  | _ => .scheduled false

def ofPerformed {ε α : Type} : Except (Failure ε) (Performed α) → Fact
  | .ok (.skipped _) => .performed true
  | _ => .performed false

@[simp] theorem failed_ofScheduled {ε α : Type} (r : Except (Failure ε) (Scheduled α)) :
    (ofScheduled r).failed = false := by
  rcases r with _ | (_ | _) <;> rfl

@[simp] theorem failed_ofPerformed {ε α : Type} (r : Except (Failure ε) (Performed α)) :
    (ofPerformed r).failed = false := by
  rcases r with _ | (_ | _) <;> rfl

/-- A fact that is counted is a failure exactly if its counter is one of failures. -/
theorem failed_iff {f : Fact} {n : Counter} (h : f.counter? = some n) :
    f.failed = true ↔ n = .storeErrors ∨ n = .locationFailures ∨ n = .flagFailures := by
  unfold counter? at h
  split at h
  case h_3 stage requests answer =>
    by_cases hanswers : answers requests answer = true
    · simp [hanswers] at h
    rw [if_neg hanswers] at h
    have hfailed : (batch stage requests answer).failed = true := by simpa [failed] using hanswers
    split at h
    · cases h
      simp [hfailed]
    split at h
    · cases h
      simp [hfailed]
    · cases h
  case h_10 => cases h
  all_goals
    cases h
    simp [failed]

end Fact

/-- The books of a gate, beside the states `σ` of its host. -/
structure Books (σ : Type) where
  rest : σ
  events : List Event
  facts : List Fact

def Books.opened {σ : Type} (s : σ) : Books σ := ⟨s, [], []⟩

def Books.counters {σ : Type} (b : Books σ) : Counters := .after b.events

abbrev Booked (σ : Type) := StateM (Books σ)

namespace Booked

variable {σ α β ε : Type}

def outside (x : StateM σ α) : Booked σ α := fun b ↦
  let (a, s) := x.run b.rest
  (a, { b with rest := s })

def write (f : Fact) : Booked σ Unit := modify fun b ↦ { b with facts := b.facts ++ [f] }

def seen (f : α → Fact) (x : Booked σ α) : Booked σ α := do
  let a ← x
  write (f a)
  pure a

def store (store : RecordStore (StateM σ)) (stage : Stage) : RecordStore (Booked σ) where
  get name := seen (.get stage) (outside (store.get name))
  setIfAbsent name value ttl :=
    seen (.setIfAbsent stage) (outside (store.setIfAbsent name value ttl))
  delete names := seen (.delete stage) (outside (store.delete names))
  batch requests := seen (.batch stage requests) (outside (store.batch requests))
  run procedure keys args := seen (.run stage procedure) (outside (store.run procedure keys args))

/-- Who takes a job that is to run again may come back to the gate with it. -/
abbrev Rescheduler (σ : Type) := Job → Booked σ (Except String Unit)

def host (h : Host (StateM σ)) (reschedule? : Option (Rescheduler σ)) (stage : Stage) :
    Host (Booked σ) where
  store := store h.store stage
  distance config location baseline :=
    seen (.measured stage) (outside (h.distance config location baseline))
  now := outside h.now
  emit e := do
    outside (h.emit e)
    modify fun b ↦ { b with events := b.events ++ [e] }
  freshId := outside h.freshId
  reschedule? := reschedule?.map fun reschedule job ↦ seen (.handedOver stage) (reschedule job)

def gate (g : Gate (StateM σ)) (reschedule? : Option (Rescheduler σ)) (stage : Stage) :
    Gate (Booked σ) where
  settings := g.settings
  host := host g.host reschedule? stage
  worker? name := outside (g.worker? name)
  isOn name := outside (g.isOn name)

end Booked

/-- Do the events tell the facts in their order? There may be one fact that is still due, or one
that has been told early. -/
structure Books.Tells {σ : Type} (due early : Option Counter) (b : Books σ) : Prop where
  told : b.facts.filterMap Fact.counter? ++ early.toList =
    b.events.filterMap Event.counter? ++ due.toList
  counted : ∀ f ∈ b.facts, f.failed = true → f.counter?.isSome = true

abbrev Books.Settled {σ : Type} (b : Books σ) : Prop := b.Tells none none

theorem filterMap_concat {α β : Type} (f : α → Option β) (l : List α) (a : α) :
    (l ++ [a]).filterMap f = l.filterMap f ++ (f a).toList := by
  cases h : f a <;> simp [h]

theorem Books.Tells.counted_concat {σ : Type} {b : Books σ} {due early : Option Counter} {f : Fact}
    (hb : b.Tells due early) (hf : f.failed = true → f.counter?.isSome = true) :
    ∀ g ∈ b.facts ++ [f], g.failed = true → g.counter?.isSome = true := by
  intro g hg
  rcases List.mem_append.mp hg with hg | hg
  · exact hb.counted g hg
  · rw [List.mem_singleton.mp hg]
    exact hf

/-- What is due after an operation, if it has failed. -/
def Counter.unless {ε α : Type} (n : Counter) : Except ε α → Option Counter
  | .ok _ => none
  | .error _ => some n

/-- Does an act carry books with one property over to a result and books with another? -/
def Carries {σ α : Type} (P : Books σ → Prop) (x : Booked σ α) (Q : α → Books σ → Prop) : Prop :=
  ∀ b, P b → Q (x.run b).1 (x.run b).2

/-- Does an act leave settled books settled? -/
abbrev Balances {σ α : Type} (x : Booked σ α) : Prop :=
  Carries Books.Settled x fun _ ↦ Books.Settled

namespace Carries

variable {σ α β : Type} {P : Books σ → Prop} {x : Booked σ α} {Q R : α → Books σ → Prop}
  {due early : Option Counter}

theorem pure {a : α} (h : ∀ b, P b → Q a b) : Carries P (Pure.pure a) Q := h

theorem bind {f : α → Booked σ β} {S : β → Books σ → Prop} (h : Carries P x Q)
    (hf : ∀ a, Carries (Q a) (f a) S) : Carries P (x >>= f) S := by
  intro b hb
  exact hf _ _ (h b hb)

theorem imp (h : Carries P x Q) (hQR : ∀ a b, Q a b → R a b) : Carries P x R :=
  fun b hb ↦ hQR _ _ (h b hb)

/-- What holds whatever the books say may be used in what follows. -/
theorem of_and {φ : Prop} (h : φ → Carries P x Q) : Carries (fun b ↦ φ ∧ P b) x Q :=
  fun b hb ↦ h hb.1 b hb.2

theorem outside (y : StateM σ α) :
    Carries (Books.Tells due early) (Booked.outside y) fun _ ↦ Books.Tells due early :=
  fun _ hb ↦ ⟨hb.told, hb.counted⟩

theorem write {f : Fact} (hf : f.failed = true → f.counter?.isSome = true) :
    Carries Books.Settled (Booked.write f : Booked σ Unit) fun _ ↦ Books.Tells f.counter? none := by
  intro b hb
  refine ⟨?_, hb.counted_concat hf⟩
  change (b.facts ++ [f]).filterMap Fact.counter? ++ [] = b.events.filterMap _ ++ f.counter?.toList
  rw [filterMap_concat]
  simpa using hb.told

/-- A fact may have been told when it is written down. -/
theorem write_early {f : Fact} (hf : f.failed = true → f.counter?.isSome = true) :
    Carries (Books.Tells none f.counter?) (Booked.write f : Booked σ Unit) fun _ ↦
      Books.Settled := by
  intro b hb
  refine ⟨?_, hb.counted_concat hf⟩
  change (b.facts ++ [f]).filterMap Fact.counter? ++ [] = b.events.filterMap _ ++ []
  rw [filterMap_concat]
  simpa using hb.told

theorem seen {f : α → Fact} (h : Carries P x fun _ ↦ Books.Settled)
    (hf : ∀ a, (f a).failed = true → (f a).counter?.isSome = true) :
    Carries P (Booked.seen f x) fun a ↦ Books.Tells (f a).counter? none :=
  h.bind fun a ↦ (write (hf a)).bind fun _ ↦ pure fun _ hb ↦ hb

/-- Where an answer is seen that may be a failure, one counter is due if it is. -/
theorem seen_unless {ε : Type} {n : Counter} {y : Booked σ (Except ε α)} {f : Except ε α → Fact}
    (hy : Balances y) (hok : ∀ a, (f (.ok a)).counter? = none ∧ (f (.ok a)).failed = false)
    (herror : ∀ e, (f (.error e)).counter? = some n) :
    Carries Books.Settled (Booked.seen f y) fun r ↦ Books.Tells (n.unless r) none := by
  refine (seen hy fun r hfailed ↦ ?_).imp fun r b hb ↦ ?_
  · cases r with
    | ok a => cases hfailed.symm.trans (hok a).2
    | error e => rw [herror, Option.isSome_some]
  · cases r with
    | ok a => rwa [(hok a).1] at hb
    | error e => rwa [herror] at hb

variable {h : Host (StateM σ)} {reschedule? : Option (Booked.Rescheduler σ)} {stage : Stage}

/-- An event tells the fact that is due. -/
theorem emit (e : Event) :
    Carries (Books.Tells e.counter? none) ((Booked.host h reschedule? stage).emit e) fun _ ↦
      Books.Settled := by
  intro b hb
  refine ⟨?_, hb.counted⟩
  change b.facts.filterMap _ ++ [] = (b.events ++ [e]).filterMap Event.counter? ++ []
  rw [filterMap_concat]
  simpa using hb.told

theorem emit_early (e : Event) :
    Carries Books.Settled ((Booked.host h reschedule? stage).emit e) fun _ ↦
      Books.Tells none e.counter? := by
  intro b hb
  refine ⟨?_, hb.counted⟩
  change b.facts.filterMap _ ++ e.counter?.toList = (b.events ++ [e]).filterMap Event.counter? ++ []
  rw [filterMap_concat]
  simpa using hb.told

end Carries

/-! ### The operations of a claimant -/

theorem Fact.counted_batch {stage : Stage} {requests : List Request}
    {answer : Except StoreError (List Reply)}
    (h : Passage.claims requests = true ∨ stage = .perform)
    (hfailed : (Fact.batch stage requests answer).failed = true) :
    (Fact.batch stage requests answer).counter?.isSome = true := by
  have hanswers : answers requests answer = false := by simpa [failed] using hfailed
  rcases h with hclaims | rfl
  · simp [counter?, hanswers, hclaims]
  · by_cases hclaims : Passage.claims requests = true <;> simp [counter?, hanswers, hclaims]

namespace Claimant

variable {c : Claimant} {window : Duration} {replies : List Reply}

theorem length_reads_claimRequests (c : Claimant) (window : Duration) :
    (c.claimRequests window).countP Request.reads = c.locations.keys.length + 1 ∧
      (c.claimRequests window).length - (c.locations.keys.length + 1) = c.writeCount := by
  have hreads : c.claimReads.length = c.locations.keys.length + 1 := by simp [claimReads]
  have hwrites : (c.claimWrites window).countP Request.reads = 0 := by
    rw [claimWrites]
    split <;> simp [Request.reads]
  rw [claimRequests, List.countP_append, hwrites, List.countP_eq_length.mpr claimReads_reads,
    List.length_append, length_claimWrites, hreads]
  omega

/-- A claim has been answered exactly if the claimant can read what it has been answered. -/
theorem answers_claimRequests :
    answers (c.claimRequests window) (.ok replies) = true ↔
      ∃ found, c.readClaim replies = .ok found := by
  obtain ⟨hreads, hwrites⟩ := length_reads_claimRequests c window
  have hclaims : Passage.claims (c.claimRequests window) = true := rfl
  simp only [answers, hreads, hwrites, hclaims, readClaim]
  cases replies.drop c.writeCount with
  | nil => simp
  | cons reply replies =>
    cases reply with
    | value v =>
      rw [List.take_succ_cons, List.all_cons, Reply.isValue_value, List.length_cons,
        List.head?_cons, List.length_take]
      cases v with
      | none => simp [Reply.toValue]
      | some winner =>
        have hrest : (replies.take c.locations.keys.length).all Reply.isValue = true ∧
            c.locations.keys.length ≤ replies.length ↔
              ∃ d, readValues c.locations.keys replies = .ok d :=
          and_comm.trans ((values_iff _ _).symm.trans (exists_readValues_iff _ _).symm)
        have hmin : c.locations.keys.length ≤ min c.locations.keys.length replies.length ↔
            c.locations.keys.length ≤ replies.length := by omega
        cases hread : readValues c.locations.keys replies with
        | error e => simpa [Reply.toValue, hread, hmin] using hrest
        | ok d => simpa [Reply.toValue, hread, hmin] using hrest
    | set | deleted | added => simp [Reply.toValue, Reply.isValue]

theorem answers_latest :
    answers (c.locations.keys.map fun config ↦ .item (c.key.latest config) 0) (.ok replies) = true ↔
      ∃ found, pairValues c.locations.keys replies = .ok found := by
  have hreads : ∀ r ∈ c.locations.keys.map fun config ↦ Request.item (c.key.latest config) 0,
      r.reads = true := by simp [Request.reads]
  rw [exists_pairValues_iff]
  simp [answers, List.countP_eq_length.mpr hreads, Passage.Idles.claims_items]

end Claimant

namespace Carries

variable {σ : Type} {h : Host (StateM σ)} {reschedule? : Option (Booked.Rescheduler σ)}
  {stage : Stage} {c : Claimant}

theorem check (c : Claimant) (window : Duration) :
    Carries Books.Settled (c.check (Booked.host h reschedule? stage).store
      (Booked.host h reschedule? stage).emit window) fun r b ↦
        (∀ winner, r.1 = .ok winner → r.2.winner = some winner) ∧
          b.Tells (Counter.storeErrors.unless r.1) none := by
  have hbatch : Carries Books.Settled
      ((Booked.host h reschedule? stage).store.batch (c.claimWrites window ++ c.claimReads))
      fun answer ↦ Books.Tells
        (if answers (c.claimRequests window) answer = true then none else some .storeErrors) none :=
    seen (outside _) fun _ ↦ Fact.counted_batch (.inl rfl)
  refine hbatch.bind fun answer ↦ ?_
  cases answer with
  | error e => exact pure fun b hb ↦ ⟨by simp, hb⟩
  | ok replies =>
    cases hread : c.readClaim replies with
    | error e =>
      have hanswers : ¬ answers (c.claimRequests window) (.ok replies) = true := by
        rw [Claimant.answers_claimRequests, hread]
        simp
      rw [if_neg hanswers]
      simp only [hread]
      exact pure fun b hb ↦ ⟨by simp, hb⟩
    | ok found =>
      rw [if_pos (Claimant.answers_claimRequests.mpr ⟨found, hread⟩)]
      simp only [hread]
      exact (emit (.checked c.id found.1 c.key)).bind fun _ ↦ pure fun b hb ↦ ⟨by simp, hb⟩

/-- The positions are offered on the side that schedules. -/
theorem offer (c : Claimant) (locations : List (String × String)) :
    Carries Books.Settled (c.offer (Booked.host h reschedule? .schedule).store
      (Booked.host h reschedule? .schedule).distance locations) fun r ↦
        Books.Tells (Counter.locationFailures.unless r) none := by
  induction locations with
  | nil => exact pure fun b hb ↦ hb
  | cons head rest ih =>
    rw [Claimant.offer]
    refine (seen_unless (outside _) (fun _ ↦ ⟨rfl, rfl⟩) fun _ ↦ rfl).bind fun offset ↦ ?_
    cases offset with
    | error e => exact pure fun b hb ↦ hb
    | ok offset =>
      refine (seen_unless (outside _) (fun _ ↦ ⟨rfl, rfl⟩) fun _ ↦ rfl).bind fun answer ↦ ?_
      cases answer with
      | error e => exact pure fun b hb ↦ hb
      | ok u => exact ih

theorem offerLocations (hwinner : c.winner.isSome = true) :
    Carries Books.Settled (c.offerLocations (Booked.host h reschedule? .schedule).store
      (Booked.host h reschedule? .schedule).distance) fun r ↦
        Books.Tells (Counter.locationFailures.unless r) none := by
  rw [Claimant.offerLocations, Option.isNone_eq_false_iff.mpr hwinner]
  split
  · exact pure fun b hb ↦ hb
  · exact offer c c.locations.entries

theorem setFlag (c : Claimant) (ttl : Duration) :
    Carries Books.Settled (c.setFlag (Booked.host h reschedule? .schedule).store ttl) fun r ↦
      Books.Tells (Counter.flagFailures.unless r) none := by
  rw [Claimant.setFlag]
  split
  · refine (seen_unless (outside _) (fun _ ↦ ⟨rfl, rfl⟩) fun _ ↦ rfl).bind fun answer ↦ ?_
    cases answer <;> exact pure fun b hb ↦ hb
  · exact pure fun b hb ↦ hb

theorem flagged (c : Claimant) :
    Carries Books.Settled (c.flagged (Booked.host h reschedule? .perform).store) fun r ↦
      Books.Tells (Counter.flagFailures.unless r) none := by
  rw [Claimant.flagged]
  split
  · refine (seen_unless (outside _) (fun _ ↦ ⟨rfl, rfl⟩) fun _ ↦ rfl).bind fun answer ↦ ?_
    cases answer <;> exact pure fun b hb ↦ hb
  · exact pure fun b hb ↦ hb

theorem release (c : Claimant) :
    Carries Books.Settled (c.release (Booked.host h reschedule? .perform).store
      (Booked.host h reschedule? .perform).emit) fun r ↦
        Books.Tells (Counter.storeErrors.unless r) none := by
  rw [Claimant.release]
  refine (seen_unless (outside _) (fun _ ↦ ⟨rfl, rfl⟩) fun _ ↦ rfl).bind fun answer ↦ ?_
  cases answer with
  | error e => exact pure fun b hb ↦ hb
  | ok u => exact (emit (.released c.id c.key)).bind fun _ ↦ pure fun b hb ↦ hb

/-- The furthest positions are read on the side that performs. -/
theorem readLatest (c : Claimant) :
    Carries Books.Settled (c.readLatest (Booked.host h reschedule? .perform).store) fun r ↦
      Books.Tells (Counter.locationFailures.unless r.1) none := by
  rw [Claimant.readLatest]
  split
  · exact pure fun b hb ↦ hb
  split
  · exact pure fun b hb ↦ hb
  have hbatch (requests : List Request) (hclaims : Passage.claims requests = false) :
      Carries Books.Settled ((Booked.host h reschedule? .perform).store.batch requests)
        fun answer ↦ Books.Tells
          (if answers requests answer = true then none else some .locationFailures) none := by
    refine (seen (outside _) fun _ ↦ Fact.counted_batch (.inr rfl)).imp fun answer b hb ↦ ?_
    simpa [Fact.counter?, hclaims] using hb
  refine (hbatch _ (Passage.Idles.claims_items _ _)).bind fun answer ↦ ?_
  cases answer with
  | error e => exact pure fun b hb ↦ hb
  | ok replies =>
    cases hread : Claimant.pairValues c.locations.keys replies with
    | error e =>
      have hanswers : ¬ answers (c.locations.keys.map fun config ↦ .item (c.key.latest config) 0)
          (.ok replies) = true := by
        rw [Claimant.answers_latest, hread]
        simp
      rw [if_neg hanswers]
      simp only [hread]
      exact pure fun b hb ↦ hb
    | ok latest =>
      rw [if_pos (Claimant.answers_latest.mpr ⟨latest, hread⟩)]
      simp only [hread]
      exact pure fun b hb ↦ hb

end Carries

end UniqueJobs
