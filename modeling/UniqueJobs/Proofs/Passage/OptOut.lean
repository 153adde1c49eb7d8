import UniqueJobs.Proofs.Passage.Account
import UniqueJobs.Proofs.Passage.Suppression

/-!
Which jobs pass the gate untouched. There are five ways for a worker to be left alone, and on the
side that schedules also a job put off to a later date; any other job is claimed for, whatever its
worker names as a strategy. Main statement: `opted_out_or_claimed`, for every store, continuation
and rescheduler.
-/

namespace UniqueJobs

/-- Is a worker left alone, its switch being `on`? -/
inductive Worker.OptsOut : Option Worker → Bool → Prop
  | unknown (on : Bool) : OptsOut none on
  | notIdempotent {w : Worker} (on : Bool) (h : w.idempotent = false) : OptsOut (some w) on
  | disabled {w : Worker} (on : Bool) (h : w.uniqueness.enabled = false) : OptsOut (some w) on
  | switchedOff (w : Worker) : OptsOut (some w) false
  | named {w : Worker} (on : Bool) (h : w.uniqueness.strategy = "none") : OptsOut (some w) on

/-- The strategy that a text stands for which is not `none`. -/
def Strategy.ofText (text : String) : Strategy :=
  if text = "until_executed" then .untilExecuted else .untilExecuting

theorem Strategy.locks_ofText (text : String) : (ofText text).locks = true := by
  rw [ofText]
  split <;> rfl

theorem Strategy.parse_of_ne {text : String} (hexecuting : text ≠ "until_executing")
    (hexecuted : text ≠ "until_executed") (hnone : text ≠ "none") : parse text = .error ⟨text⟩ := by
  unfold parse
  split
  · exact absurd rfl hexecuting
  · exact absurd rfl hexecuted
  · exact absurd rfl hnone
  · rfl

/-- A text that is no name of a strategy stands for the usual one. -/
theorem Strategy.ofWorker_of_deduplicates {w : Worker} {on : Bool}
    (h : Worker.deduplicates (some w) on = true) :
    ofWorker (some w) on =
      if w.uniqueness.strategy = "none" then .never else ofText w.uniqueness.strategy := by
  rw [ofWorker, if_pos h]
  generalize w.uniqueness.strategy = text
  by_cases hnone : text = "none"
  · subst hnone
    rfl
  rw [if_neg hnone, ofText]
  by_cases hexecuted : text = "until_executed"
  · subst hexecuted
    rfl
  rw [if_neg hexecuted]
  by_cases hexecuting : text = "until_executing"
  · subst hexecuting
    rfl
  · rw [parse_of_ne hexecuting hexecuted hnone]

theorem Worker.OptsOut.ofWorker {w : Option Worker} {on : Bool} (h : OptsOut w on) :
    Strategy.ofWorker w on = .never := by
  cases h with
  | unknown => rfl
  | notIdempotent on h => simp [Strategy.ofWorker, deduplicates, h]
  | disabled on h => simp [Strategy.ofWorker, deduplicates, h]
  | switchedOff w => simp [Strategy.ofWorker, deduplicates]
  | @named w on h =>
    cases hd : deduplicates (some w) on with
    | true => rw [Strategy.ofWorker_of_deduplicates hd, if_pos h]
    | false => rw [Strategy.ofWorker, hd, if_neg Bool.false_ne_true]

theorem Strategy.ofWorker_of_not_optsOut {w : Worker} {on : Bool}
    (h : ¬ Worker.OptsOut (some w) on) : ofWorker (some w) on = ofText w.uniqueness.strategy := by
  have hidempotent : w.idempotent = true := eq_true_of_ne_false fun hn ↦ h (.notIdempotent on hn)
  have henabled : w.uniqueness.enabled = true := eq_true_of_ne_false fun hn ↦ h (.disabled on hn)
  have hon : on = true := by
    refine eq_true_of_ne_false fun hn ↦ ?_
    subst hn
    exact h (.switchedOff w)
  have hd : Worker.deduplicates (some w) on = true := by
    simp [Worker.deduplicates, hidempotent, henabled, hon]
  rw [ofWorker_of_deduplicates hd, if_neg fun hn ↦ h (.named on hn)]

variable {σ ε α β : Type}

namespace Books

/-- The books when an event has been told. -/
def told (h : Host (StateM σ)) (e : Event) (b : Books σ) : Books σ :=
  ⟨((h.emit e).run b.rest).2, b.events ++ [e], b.facts⟩

/-- The books when the gate knows the strategy for a job: a name that is none is told of, and then
that the job has come. -/
def entered (h : Host (StateM σ)) (stage : Stage) (job : Job) (w : Option Worker) (on : Bool)
    (b : Books σ) : Books σ :=
  ((Strategy.passedOver? w on).elim b fun name ↦ b.told h (.passedOver name)).told h
    (.entered stage job.id job.worker (Strategy.ofWorker w on))

theorem counters_told (h : Host (StateM σ)) {e : Event} (he : e.counter? = none) (b : Books σ) :
    (b.told h e).counters = b.counters := by
  have hrecord (c : Counters) : c.record e = c := by
    cases e with
    | passedOver | entered | checked | released | noRescheduler | rescheduleFailed => rfl
    | dropped | skipped | checkFailed | releaseFailed | locationsFailed | flagFailed
    | rescheduled => cases he
  rw [counters, counters, told, Counters.after, List.foldl_append]
  exact hrecord _

theorem entered_same (h : Host (StateM σ)) (stage : Stage) (job : Job) (w : Option Worker)
    (on : Bool) (b : Books σ) :
    (b.entered h stage job w on).facts = b.facts ∧
      (b.entered h stage job w on).counters = b.counters := by
  rw [entered, counters_told h rfl]
  cases Strategy.passedOver? w on with
  | none => exact ⟨rfl, rfl⟩
  | some name => exact ⟨rfl, counters_told h rfl b⟩

/-- What comes of a job that passes untouched: the continuation runs once on it, and its result is
that of the passage. -/
def through (next : Continuation (Booked σ) ε α) (wrap : α → β) (job : Job) (b : Books σ) :
    (Except (Failure ε) β × Job) × Books σ :=
  let done := (next job).run b
  ((Passage.outcome wrap done.1.1, done.1.2), done.2)

end Books

theorem Job.identify_job (keyspace : String) (job : Job) :
    (job.identify keyspace).2 = { job with key := some (job.identify keyspace).1.text } := by
  cases hkey : job.key with
  | none => rw [identify, hkey]
  | some k =>
    rw [identify, hkey]
    exact congrArg (fun key ↦ { job with key }) hkey

/-! ### Acts that strike nothing out of the books -/

def Appends (x : Booked σ α) : Prop := ∀ b, b.facts <+: (x.run b).2.facts

/-- Is what is seen first in an act of a kind? -/
def Begins (P : Fact → Prop) (x : Booked σ α) : Prop :=
  ∀ b, ∃ f, P f ∧ b.facts ++ [f] <+: (x.run b).2.facts

namespace Appends

variable {x : Booked σ α} {h : Host (StateM σ)} {reschedule? : Option (Booked.Rescheduler σ)}
  {stage : Stage} {next : Continuation (Booked σ) ε α}

theorem pure (a : α) : Appends (Pure.pure a : Booked σ α) := fun _ ↦ List.prefix_rfl

theorem bind {f : α → Booked σ β} (hx : Appends x) (hf : ∀ a, Appends (f a)) :
    Appends (x >>= f) :=
  fun b ↦ (hx b).trans (hf _ _)

theorem outside (y : StateM σ α) : Appends (Booked.outside y) := fun _ ↦ List.prefix_rfl

theorem seen {f : α → Fact} (hx : Appends x) : Appends (Booked.seen f x) :=
  hx.bind fun a b ↦ List.prefix_append b.facts [f a]

theorem emit (e : Event) : Appends ((Booked.host h reschedule? stage).emit e) :=
  fun _ ↦ List.prefix_rfl

theorem note (event : ClaimError → Event) (r : Except ClaimError Unit) :
    Appends (Passage.note (Booked.host h reschedule? stage) event r) := by
  cases r with
  | ok u => exact pure ()
  | error e => exact emit (event e)

theorem pass (hnext : ∀ job, Appends (next job)) (wrap : α → β) (c : Claimant) (job : Job) :
    Appends (Passage.pass next wrap c job) := by
  refine (hnext job).bind fun done ↦ ?_
  rcases done with ⟨_ | _, _⟩ <;> exact pure _

theorem afterFailedCheck (hnext : ∀ job, Appends (next job)) (policy : OutagePolicy)
    (wrap : α → β) (c : Claimant) (job : Job) (e : ClaimError) :
    Appends (Passage.afterFailedCheck (Booked.host h reschedule? stage) stage policy next wrap c job
      e) := by
  refine (emit _).bind fun _ ↦ ?_
  cases policy with
  | proceed => exact pass hnext wrap c job
  | refuse => exact pure _

theorem offer (c : Claimant) (locations : List (String × String)) :
    Appends (c.offer (Booked.host h reschedule? stage).store
      (Booked.host h reschedule? stage).distance locations) := by
  induction locations with
  | nil => exact pure _
  | cons head rest ih =>
    refine (outside _).seen.bind fun offset ↦ ?_
    cases offset with
    | error e => exact pure _
    | ok offset =>
      refine (outside _).seen.bind fun answer ↦ ?_
      cases answer with
      | error e => exact pure _
      | ok u => exact ih

theorem offerLocations (c : Claimant) :
    Appends (c.offerLocations (Booked.host h reschedule? stage).store
      (Booked.host h reschedule? stage).distance) := by
  rw [Claimant.offerLocations]
  split
  · exact pure _
  split
  · exact pure _
  · exact offer c c.locations.entries

theorem setFlag (c : Claimant) (ttl : Duration) :
    Appends (c.setFlag (Booked.host h reschedule? stage).store ttl) := by
  rw [Claimant.setFlag]
  split
  · refine (outside _).seen.bind fun answer ↦ ?_
    cases answer <;> exact pure _
  · exact pure _

end Appends

namespace Begins

variable {P : Fact → Prop} {x : Booked σ α} {h : Host (StateM σ)}
  {reschedule? : Option (Booked.Rescheduler σ)} {stage : Stage}

theorem seen {f : α → Fact} (hf : ∀ a, P (f a)) (y : StateM σ α) :
    Begins P (Booked.seen f (Booked.outside y)) :=
  fun b ↦ ⟨f (y.run b.rest).1, hf _, List.prefix_rfl⟩

theorem bind {f : α → Booked σ β} (hx : Begins P x) (hf : ∀ a, Appends (f a)) :
    Begins P (x >>= f) := by
  intro b
  obtain ⟨first, hfirst, hseen⟩ := hx b
  exact ⟨first, hfirst, hseen.trans (hf _ _)⟩

theorem map (hx : Begins P x) (f : α → β) : Begins P (f <$> x) := hx.bind fun _ ↦ .pure _

theorem outside_bind {f : α → Booked σ β} (y : StateM σ α) (hf : ∀ a, Begins P (f a)) :
    Begins P (Booked.outside y >>= f) :=
  fun b ↦ hf (y.run b.rest).1 { b with rest := (y.run b.rest).2 }

/-- A check asks the store whatever comes of it. -/
theorem check (c : Claimant) {window : Duration}
    (hP : ∀ answer, P (.batch stage (c.claimRequests window) answer)) :
    Begins P (c.check (Booked.host h reschedule? stage).store (Booked.host h reschedule? stage).emit
      window) := by
  refine (seen hP _).bind fun answer ↦ ?_
  cases answer with
  | error e => exact .pure _
  | ok replies =>
    cases hread : c.readClaim replies with
    | error e =>
      simp only [hread]
      exact .pure _
    | ok found =>
      simp only [hread]
      exact (Appends.emit _).bind fun _ ↦ .pure _

/-- A job that is not put off is claimed for when it is scheduled. -/
theorem scheduleLocked (reschedule? : Option (Booked.Rescheduler σ))
    {next : Continuation (Booked σ) ε α} (hnext : ∀ job, Appends (next job))
    (policy : OutagePolicy) (strategy : Strategy) {c : Claimant} (job : Job)
    (hdue : (c.runAt.isSome && !c.uniqueness.includingScheduled) = false) :
    Begins (fun f ↦ ∃ now answer, f = .batch .schedule (c.claimRequests (c.window now)) answer)
      (Passage.scheduleLocked (Booked.host h reschedule? .schedule) policy strategy c job
        next) := by
  rw [Passage.scheduleLocked, if_neg (Bool.eq_false_iff.mp hdue)]
  refine outside_bind _ fun now ↦ (check c fun answer ↦ ⟨now, answer, rfl⟩).bind fun r ↦ ?_
  obtain ⟨checked, c⟩ := r
  cases checked with
  | error e => exact .afterFailedCheck hnext policy _ c job e
  | ok winner =>
    refine (Appends.offerLocations c).bind fun offered ↦ (Appends.note _ offered).bind fun _ ↦ ?_
    split
    · exact .pass hnext _ c job
    · exact (Appends.setFlag c _).bind fun set ↦ (Appends.note _ set).bind fun _ ↦
        (Appends.emit _).bind fun _ ↦ .pure _

end Begins

namespace Booked

variable {g : Gate (StateM σ)} {reschedule? : Option (Rescheduler σ)} {stage : Stage} {job : Job}
  {next : Continuation (Booked σ) ε α} {b : Books σ} {w : Option Worker} {on : Bool} {s s' : σ}

theorem run_outside {x : StateM σ α} {a : α} (h : x.run b.rest = (a, s)) :
    (outside x).run b = pure (a, { b with rest := s }) := by
  change ((x.run b.rest).1, { b with rest := (x.run b.rest).2 }) = _
  rw [h]
  rfl

theorem run_pass (wrap : α → β) (c : Claimant) (job : Job) (b : Books σ) :
    ((fun p ↦ (p.result, p.job)) <$> Passage.pass next wrap c job).run b =
      b.through next wrap job := by
  rcases hdone : (next job).run b with ⟨⟨result, job'⟩, b'⟩
  rw [Books.through, hdone, StateT.run_map, Passage.pass, StateT.run_bind, hdone]
  cases result <;> rfl

theorem run_claimant (hworker : (g.worker? job.worker).run b.rest = (w, s)) :
    ((gate g reschedule? stage).claimant job).run b =
      pure (Claimant.ofJob g.settings w job, { b with rest := s }) := by
  have hlook : ((gate g reschedule? stage).worker? job.worker).run b =
      pure (w, { b with rest := s }) := run_outside hworker
  rw [Gate.claimant, StateT.run_bind, hlook, pure_bind]
  rfl

/-- The gate tells that the job has come once it knows the strategy. -/
theorem run_strategyOf_bind {c : Claimant} (hworker : c.worker = w)
    (hon : (g.isOn c.workerName).run b.rest = (on, s)) (job : Job) (rest : Strategy → Booked σ α) :
    ((gate g reschedule? stage).strategyOf c >>= fun strategy ↦
      (host g.host reschedule? stage).emit (.entered stage job.id job.worker strategy) >>=
        fun _ ↦ rest strategy).run b =
      (rest (Strategy.ofWorker w on)).run
        (Books.entered g.host stage job w on { b with rest := s }) := by
  have hlook : ((gate g reschedule? stage).isOn c.workerName).run b =
      pure (on, { b with rest := s }) := run_outside hon
  rw [Gate.strategyOf, StateT.run_bind, StateT.run_bind, hlook, pure_bind, Claimant.strategy,
    hworker, Books.entered]
  cases Strategy.passedOver? w on <;> rfl

/-- The gate looks up the worker and its switch, tells that the job has come, and lets it go by the
strategy. -/
theorem run_gate (reschedule? : Option (Rescheduler σ))
    (hworker : (g.worker? job.worker).run b.rest = (w, s))
    (hon : (g.isOn job.worker).run s = (on, s')) (next : Continuation (Booked σ) ε α) :
    let known := Claimant.ofJob g.settings w job
    let entered (stage : Stage) := Books.entered g.host stage known.2 w on { b with rest := s' }
    let strategy := Strategy.ofWorker w on
    ((gate g reschedule? .schedule).schedule job next).run b =
        ((fun p ↦ (p.result, p.job)) <$> Passage.schedule (host g.host reschedule? .schedule)
          g.settings.policy strategy known.1 known.2 next).run (entered .schedule) ∧
      ((gate g reschedule? .perform).perform job next).run b =
        ((fun p ↦ (p.result, p.job)) <$> Passage.perform (host g.host reschedule? .perform)
          g.settings.policy strategy known.1 known.2 next).run (entered .perform) := by
  intro known entered strategy
  obtain ⟨hknown, hname, -⟩ := Claimant.ofJob_facts g.settings w job
  rw [← hname] at hon
  constructor
  · rw [Gate.schedule, StateT.run_bind, run_claimant hworker, pure_bind]
    exact run_strategyOf_bind hknown hon known.2 _
  · rw [Gate.perform, StateT.run_bind, run_claimant hworker, pure_bind]
    exact run_strategyOf_bind hknown hon known.2 _

/-- A job put off to a later date passes whatever the strategy, unless its worker includes it. -/
theorem schedule_of_putOff (strategy : Strategy) {c : Claimant}
    (hput : (c.runAt.isSome && !c.uniqueness.includingScheduled) = true) (h : Host (Booked σ))
    (policy : OutagePolicy) (job : Job) :
    Passage.schedule h policy strategy c job next = Passage.pass next .enqueued c job := by
  cases strategy with
  | untilExecuting | untilExecuted => exact if_pos hput
  | never => rfl

/-- A job whose worker opts out passes untouched on both sides, and so does a job put off to a later
date on the side that schedules, unless its worker includes it. Every other job is claimed for when
it is scheduled, and its passage is that of the strategy its worker names, or of the usual one. -/
theorem opted_out_or_claimed (g : Gate (StateM σ)) (reschedule? : Option (Rescheduler σ))
    (job : Job) (b : Books σ) (hworker : (g.worker? job.worker).run b.rest = (w, s))
    (hon : (g.isOn job.worker).run s = (on, s')) (next : Continuation (Booked σ) ε α) :
    let known := Claimant.ofJob g.settings w job
    let entered (stage : Stage) := Books.entered g.host stage known.2 w on { b with rest := s' }
    let scheduled := ((gate g reschedule? .schedule).schedule job next).run b
    let performed := ((gate g reschedule? .perform).perform job next).run b
    -- On entering, the job is given its key and nothing else is seen or counted.
    (known.2 = { job with key := some known.1.key.text } ∧
      ∀ stage, (entered stage).facts = b.facts ∧ (entered stage).counters = b.counters) ∧
    (Worker.OptsOut w on →
      scheduled = (entered .schedule).through next .enqueued known.2 ∧
        performed = (entered .perform).through next .executed known.2) ∧
    (job.runAt.isSome = true → (∀ v ∈ w, v.uniqueness.includingScheduled = false) →
      scheduled = (entered .schedule).through next .enqueued known.2) ∧
    (¬ Worker.OptsOut w on → ∃ v, w = some v ∧
      let strategy := Strategy.ofText v.uniqueness.strategy
      performed = ((fun p ↦ (p.result, p.job)) <$>
        Passage.perform (host g.host reschedule? .perform) g.settings.policy strategy known.1 known.2
          next).run (entered .perform) ∧
      (job.runAt = none ∨ v.uniqueness.includingScheduled = true →
        scheduled = ((fun p ↦ (p.result, p.job)) <$>
          Passage.scheduleLocked (host g.host reschedule? .schedule) g.settings.policy strategy
            known.1 known.2 next).run (entered .schedule) ∧
        ((∀ job, Appends (next job)) → ∃ now answer, b.facts ++
          [.batch .schedule (known.1.claimRequests (known.1.window now)) answer] <+:
            scheduled.2.facts))) := by
  intro known entered scheduled performed
  obtain ⟨hscheduled, hperformed⟩ := run_gate reschedule? hworker hon next
  obtain ⟨hknown, -, -, hkey, -, hrunAt, -⟩ := Claimant.ofJob_facts g.settings w job
  have hsame (stage : Stage) : (entered stage).facts = b.facts ∧
      (entered stage).counters = b.counters := Books.entered_same g.host stage known.2 w on _
  refine ⟨⟨?_, hsame⟩, ?_, ?_, ?_⟩
  · have hjob : known.2 = (job.identify g.settings.keyspace).2 := rfl
    rw [hjob, Job.identify_job, hkey]
  · intro hout
    rw [hout.ofWorker] at hscheduled hperformed
    exact ⟨hscheduled.trans (run_pass ..), hperformed.trans (run_pass ..)⟩
  · intro hat hincluding
    have hput : (known.1.runAt.isSome && !known.1.uniqueness.includingScheduled) = true := by
      rw [hrunAt, hat, Claimant.uniqueness, Claimant.workerOrUnknown, hknown]
      cases w with
      | none => rfl
      | some v => simpa using hincluding v rfl
    rw [schedule_of_putOff _ hput] at hscheduled
    exact hscheduled.trans (run_pass ..)
  · intro hin
    cases w with
    | none => exact absurd (.unknown on) hin
    | some v =>
      rw [Strategy.ofWorker_of_not_optsOut hin] at hscheduled hperformed
      refine ⟨v, rfl, hperformed, fun hdue ↦ ?_⟩
      have hclaims : (known.1.runAt.isSome && !known.1.uniqueness.includingScheduled) = false := by
        rw [hrunAt, Claimant.uniqueness, Claimant.workerOrUnknown, hknown]
        rcases hdue with hnone | hincluding
        · simp [hnone]
        · simp [hincluding]
      rw [Passage.schedule_of_locks (Strategy.locks_ofText _)] at hscheduled
      refine ⟨hscheduled, fun hnext ↦ ?_⟩
      obtain ⟨f, ⟨now, answer, rfl⟩, hseen⟩ :=
        (Begins.scheduleLocked reschedule? hnext g.settings.policy
          (Strategy.ofText v.uniqueness.strategy) known.2 hclaims).map (fun p ↦ (p.result, p.job))
          (entered .schedule)
      rw [← hscheduled, (hsame .schedule).1] at hseen
      exact ⟨now, answer, hseen⟩

/-- A gate that knows one worker, whose strategy is named in capitals. -/
def capitalGate : Gate (StateM Unit) :=
  { failingGate with
    worker? := fun name ↦ pure <|
      if name = "w" then some (Worker.newIdempotent.withStrategy "NONE") else none }

theorem opted_out_or_claimed_capitals :
    (∃ now answer, [.batch .schedule
        ((Claimant.ofJob .default (some (Worker.newIdempotent.withStrategy "NONE"))
          positioned).1.claimRequests now) answer] <+:
      (((gate capitalGate none .schedule).schedule positioned accepts).run (.opened ())).2.facts) ∧
    let stranger := Job.new ⟨"b"⟩ "v" []
    let done := ((gate capitalGate (some comesBack) .perform).perform stranger accepts).run
      (.opened ())
    done.1.1 = .ok (.executed ()) ∧ done.2.facts = [] := by
  have hin : ¬ Worker.OptsOut (some (Worker.newIdempotent.withStrategy "NONE")) true := by
    intro hout
    exact absurd hout.ofWorker (by decide)
  constructor
  · obtain ⟨-, -, -, hclaims⟩ := opted_out_or_claimed capitalGate none positioned (.opened ()) rfl
      rfl accepts
    obtain ⟨v, hv, -, hscheduled⟩ := hclaims hin
    cases hv
    obtain ⟨now, answer, hseen⟩ := (hscheduled (.inl rfl)).2 fun _ ↦ .outside _
    exact ⟨_, answer, hseen⟩
  · intro stranger done
    obtain ⟨⟨-, hsame⟩, hout, -⟩ := opted_out_or_claimed capitalGate (some comesBack) stranger
      (.opened ()) rfl rfl accepts
    have hdone : done = _ := (hout (.unknown true)).2
    rw [hdone]
    exact ⟨rfl, (hsame .perform).1⟩

end Booked

end UniqueJobs
