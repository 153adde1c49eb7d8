import UniqueJobs.Gate
import UniqueJobs.Proofs.Claimant.Latest
import UniqueJobs.Proofs.Passage.OptOut

/-!
What a gate does to the job that passes it. The job is given its key, and on the side that performs
the furthest log positions; the continuation is handed the job so, and what it leaves stays. A
duplicate is told whose it is where it is dropped. Main statement: `Gate.touches_job`, for every
store, whatever it answers, for every worker, policy and continuation, on both sides of the queue.
-/

namespace UniqueJobs

namespace Passage

variable {σ ε α β : Type}

/-- A run of the continuation: the job that it was handed, its result and the job that it left. -/
structure Handling (ε α : Type) where
  given : Job
  result : Except ε α
  left : Job

abbrev Handled (σ ε α : Type) := Watched σ (Handling ε α)

def handNext (next : Continuation (StateM σ) ε α) : Continuation (Handled σ ε α) ε α :=
  fun given ↦ do
    let (result, left) ← unseen (next given)
    mark (.ran ⟨given, result, left⟩)
    pure (result, left)

/-- Either the continuation has run once, on the job as it is to be given, and the job is as it left
it; or it has not run, and the job is kept as a duplicate of the winner or as it would have been
given. -/
inductive Handles (given : Job) (drop : JobId → β) (duplicate : JobId → Job) (wrap : α → β) :
    Except (Failure ε) β → Job → List (Handling ε α) → Prop
  | passed (result : Except ε α) (left : Job) :
      Handles given drop duplicate wrap (outcome wrap result) left [⟨given, result, left⟩]
  | dropped (winner : JobId) :
      Handles given drop duplicate wrap (.ok (drop winner)) (duplicate winner) []
  | refused (e : ClaimError) : Handles given drop duplicate wrap (.error (.refused e)) given []

theorem Idle.runs {ρ : Type} {marks : List (Mark ρ)} (h : Idle marks) :
    Passage.runs marks = [] := by
  induction marks with
  | nil => rfl
  | cons y rest ih =>
    obtain ⟨requests, answer, rfl, -⟩ := h y List.mem_cons_self
    exact ih fun y hy ↦ h y (List.mem_cons_of_mem _ hy)

theorem leaves_handNext (next : Continuation (StateM σ) ε α) (job : Job) :
    Leaves (handNext next job) (next job) fun p new ↦ new = [.ran ⟨job, p.1, p.2⟩] := by
  change Leaves _ (next job >>= fun p ↦ pure (p.1, p.2)) _
  apply Leaves.bind (Leaves.unseen (next job))
  intro p new hnew
  subst hnew
  exact Leaves.bind_mark (Leaves.pure rfl)

variable {h : Host (StateM σ)} {next : Continuation (StateM σ) ε α} {drop : JobId → β}
  {duplicate : JobId → Job} {wrap : α → β}

theorem hands_pass (c : Claimant) (job : Job) :
    Leaves (pass (handNext next) wrap c job) (pass next wrap c job) fun p new ↦
      Handles job drop duplicate wrap p.result p.job (runs new) := by
  apply Leaves.bind (leaves_handNext next job)
  intro p new hnew
  obtain ⟨result, left⟩ := p
  subst hnew
  cases result with
  | ok a => exact Leaves.pure (.passed (.ok a) left)
  | error e => exact Leaves.pure (.passed (.error e) left)

theorem hands_afterFailedCheck (stage : Stage) (policy : OutagePolicy) (c : Claimant) (job : Job)
    (e : ClaimError) :
    Leaves (afterFailedCheck (watchHost h) stage policy (handNext next) wrap c job e)
      (afterFailedCheck h stage policy next wrap c job e) fun p new ↦
        Handles job drop duplicate wrap p.result p.job (runs new) := by
  apply Leaves.bind (Idles.emit h _)
  intro u first hfirst
  cases policy with
  | refuse =>
    apply Leaves.pure
    rw [runs_append, hfirst.runs]
    exact .refused e
  | proceed =>
    apply (hands_pass c job).imp
    intro p new hp
    rwa [runs_append, hfirst.runs]

/-- A duplicate is told of the winner where it is dropped, and nothing else is done to the job. -/
theorem hands_scheduleLocked (policy : OutagePolicy) (strategy : Strategy) (c : Claimant)
    (job : Job) :
    Leaves (scheduleLocked (watchHost h) policy strategy c job (handNext next))
      (scheduleLocked h policy strategy c job next) fun p new ↦
        Handles job Scheduled.dropped (fun winner ↦ { job with duplicateOf := some winner })
          Scheduled.enqueued p.result p.job (runs new) := by
  rw [scheduleLocked, scheduleLocked]
  by_cases hbypass : (c.runAt.isSome && !c.uniqueness.includingScheduled) = true
  · simp only [hbypass, ↓reduceIte]
    exact hands_pass c job
  simp only [hbypass, Bool.false_eq_true, ↓reduceIte]
  apply Leaves.bind (Leaves.unseen h.now)
  intro now new hnew
  subst hnew
  apply Leaves.bind (leaves_check h c (c.window now))
  intro r checked hr
  obtain ⟨v, c'⟩ := r
  obtain ⟨⟨-, hchecked⟩, -⟩ := hr
  cases v with
  | error e =>
    apply (hands_afterFailedCheck .schedule policy c' job e).imp
    intro p new hp
    rwa [List.nil_append, runs_append, hchecked]
  | ok winner =>
    apply Leaves.bind (Idles.offerLocations h c')
    intro offered first hfirst
    apply Leaves.bind (Idles.note offered)
    intro u second hsecond
    by_cases hwinner : winner = c'.id
    · simp only [hwinner, ↓reduceIte]
      apply (hands_pass c' job).imp
      intro p new hp
      simpa only [List.nil_append, runs_append, hchecked, hfirst.runs, hsecond.runs] using hp
    · simp only [hwinner, ↓reduceIte]
      apply Leaves.bind (Idles.setFlag h c' _)
      intro flagged third hthird
      apply Leaves.bind (Idles.note flagged)
      intro u' fourth hfourth
      apply Leaves.bind (Idles.emit h _)
      intro u'' fifth hfifth
      apply Leaves.pure
      simp only [List.nil_append, List.append_nil, runs_append, hchecked, hfirst.runs,
        hsecond.runs, hthird.runs, hfourth.runs, hfifth.runs]
      exact .dropped winner

end Passage

/-! ### The furthest positions -/

/-- The furthest positions that a claimant is told of before anything else, if the store answers its
reads and the answer can be read. -/
def Claimant.firstRead {ρ : Type} (c : Claimant) :
    List (Passage.Mark ρ) → Option (Dictionary String)
  | .batch requests (.ok replies) :: _ =>
    if requests = c.latestReads then (pairValues c.locations.keys replies).toOption else none
  | _ => none

/-- The job with the furthest positions, if there are any. -/
def Job.informed (job : Job) : Option (Dictionary String) → Job
  | some latest => if latest.isEmpty then job else { job with latest }
  | none => job

theorem Job.informed_eq (job : Job) (read : Option (Dictionary String)) :
    job.informed read = { job with latest := (job.informed read).latest } := by
  cases read with
  | none => rfl
  | some latest => cases h : latest.isEmpty <;> simp [informed, h]

theorem Job.informed_firstRead_of_isEmpty {c : Claimant} (h : c.locations.isEmpty = true) {ρ : Type}
    (marks : List (Passage.Mark ρ)) (job : Job) : job.informed (c.firstRead marks) = job := by
  have hkeys : c.locations.keys = [] := by simpa [Dictionary.isEmpty, Dictionary.keys] using h
  unfold Claimant.firstRead
  split
  · split
    · rw [hkeys]
      rfl
    · rfl
  · rfl

namespace Passage

variable {σ ρ ε α : Type} {h : Host (StateM σ)} {next : Continuation (StateM σ) ε α} {c : Claimant}

theorem hands_readLatest (store : RecordStore (StateM σ)) (hlatest : c.latest = none) :
    Leaves (c.readLatest (watchStore (ρ := ρ) store)) (c.readLatest store) fun r new ↦
      (Idle new ∧ ∃ latest, r.2 = { c with latest }) ∧ ∀ more job,
        Job.informed job r.1.toOption = job.informed (c.firstRead (new ++ more)) := by
  rw [Claimant.readLatest, Claimant.readLatest, hlatest]
  by_cases hempty : c.locations.isEmpty = true
  · simp only [hempty, ↓reduceIte]
    apply Leaves.pure
    refine ⟨⟨.nil, some .empty, rfl⟩, fun more job ↦ ?_⟩
    rw [Job.informed_firstRead_of_isEmpty hempty]
    rfl
  simp only [hempty, Bool.false_eq_true, ↓reduceIte]
  apply Leaves.bind (Leaves.batch store c.latestReads)
  intro answer new hnew
  subst hnew
  have hidle : Idle ([.batch c.latestReads answer] ++ [] : List (Mark ρ)) := by
    intro z hz
    exact ⟨_, answer, List.mem_singleton.mp hz, Idles.claims_items c.key c.locations.keys⟩
  cases answer with
  | error e => exact Leaves.pure ⟨⟨hidle, none, by rw [← hlatest]⟩, fun more job ↦ rfl⟩
  | ok replies =>
    have hread (more : List (Mark ρ)) :
        c.firstRead ([.batch c.latestReads (.ok replies)] ++ [] ++ more) =
          (Claimant.pairValues c.locations.keys replies).toOption := if_pos rfl
    cases hpairs : Claimant.pairValues c.locations.keys replies with
    | error e =>
      simp only [hpairs]
      refine Leaves.pure ⟨⟨hidle, none, by rw [← hlatest]⟩, fun more job ↦ ?_⟩
      rw [hread, hpairs]
      rfl
    | ok latest =>
      simp only [hpairs]
      refine Leaves.pure ⟨⟨hidle, some latest, rfl⟩, fun more job ↦ ?_⟩
      rw [hread, hpairs]
      rfl

/-- The job is handed what the first reading of the furthest positions has found. -/
theorem hands_attachLatest (hlatest : c.latest = none) (job : Job) :
    Leaves (attachLatest (watchHost (ρ := ρ) h) c job) (attachLatest h c job) fun r new ↦
      (Idle new ∧ ∃ latest, r.1 = { c with latest }) ∧
        ∀ more, r.2 = job.informed (c.firstRead (new ++ more)) := by
  apply (hands_readLatest h.store hlatest).bind
  intro r new hr
  obtain ⟨answer, c'⟩ := r
  obtain ⟨⟨hidle, latest, rfl⟩, hinformed⟩ := hr
  cases answer with
  | ok found =>
    refine Leaves.pure ⟨⟨hidle.append .nil, latest, rfl⟩, fun more ↦ ?_⟩
    rw [List.append_nil]
    exact hinformed more job
  | error e =>
    apply Leaves.bind (Idles.emit h _)
    intro u later hlater
    refine Leaves.pure ⟨⟨hidle.append (hlater.append .nil), latest, rfl⟩, fun more ↦ ?_⟩
    rw [List.append_nil, List.append_assoc]
    exact hinformed (later ++ more) job

theorem hands_performUntilExecuting (policy : OutagePolicy) (hlatest : c.latest = none)
    (job : Job) :
    Leaves (performUntilExecuting (watchHost h) policy c job (handNext next))
      (performUntilExecuting h policy c job next) fun p new ↦
        let given := job.informed (c.firstRead new)
        Handles given Performed.skipped (fun _ ↦ given) Performed.executed p.result p.job
          (runs new) := by
  apply (hands_attachLatest hlatest job).bind
  intro attached first hattached
  obtain ⟨c', given⟩ := attached
  obtain ⟨⟨hfirst, -⟩, hgiven⟩ := hattached
  simp only at hgiven
  simp only [← hgiven, runs_append, hfirst.runs, List.nil_append]
  apply Leaves.bind (Leaves.unseen h.now)
  intro now new hnew
  subst hnew
  apply Leaves.bind (leaves_check h c' _)
  intro r checked hr
  obtain ⟨v, c'⟩ := r
  obtain ⟨⟨-, hchecked⟩, -⟩ := hr
  simp only [List.nil_append, runs_append, hchecked]
  cases v with
  | error e => exact hands_afterFailedCheck .perform policy c' given e
  | ok winner =>
    by_cases hwinner : winner = c'.id
    · simp only [hwinner, ↓reduceIte]
      apply Leaves.bind (leaves_handNext next given)
      intro ran new hran
      obtain ⟨result, left⟩ := ran
      subst hran
      cases result with
      | error e => exact Leaves.pure (.passed (.error e) left)
      | ok a =>
        apply Leaves.bind Idles.letGo
        intro u last hlast
        apply Leaves.pure
        rw [List.append_nil, runs_append, hlast.runs]
        exact .passed (.ok a) left
    · simp only [hwinner, ↓reduceIte]
      apply Leaves.bind (Idles.emit h _)
      intro u last hlast
      apply Leaves.pure
      rw [List.append_nil, hlast.runs]
      exact .dropped winner

theorem hands_performUntilExecuted (hlatest : c.latest = none) (job : Job) :
    Leaves (performUntilExecuted (watchHost h) c job (handNext next))
      (performUntilExecuted h c job next) fun p new ↦
        let given := job.informed (c.firstRead new)
        Handles given Performed.skipped (fun _ ↦ given) Performed.executed p.result p.job
          (runs new) := by
  apply (hands_attachLatest hlatest job).bind
  intro attached first hattached
  obtain ⟨c', given⟩ := attached
  obtain ⟨⟨hfirst, -⟩, hgiven⟩ := hattached
  simp only at hgiven
  simp only [← hgiven, runs_append, hfirst.runs, List.nil_append]
  apply Leaves.bind (leaves_handNext next given)
  intro ran new hran
  obtain ⟨result, left⟩ := ran
  subst hran
  apply Leaves.bind Idles.readFlag
  intro flagged second hsecond
  apply Leaves.bind Idles.letGo
  intro u third hthird
  simp only [runs_append, hsecond.runs, hthird.runs, List.nil_append]
  cases result with
  | error e => exact Leaves.pure (.passed (.error e) left)
  | ok a =>
    cases flagged with
    | false => exact Leaves.pure (.passed (.ok a) left)
    | true =>
      apply Leaves.bind Idles.runAgain
      intro u' last hlast
      apply Leaves.pure
      rw [List.append_nil, hlast.runs]
      exact .passed (.ok a) left

theorem hands_schedule (h : Host (StateM σ)) (policy : OutagePolicy) (strategy : Strategy)
    (c : Claimant) (job : Job) (next : Continuation (StateM σ) ε α) :
    Leaves (schedule (watchHost h) policy strategy c job (handNext next))
      (schedule h policy strategy c job next) fun p new ↦
        Handles job Scheduled.dropped (fun winner ↦ { job with duplicateOf := some winner })
          Scheduled.enqueued p.result p.job (runs new) := by
  cases strategy with
  | untilExecuting | untilExecuted => exact hands_scheduleLocked policy _ c job
  | never => exact hands_pass c job

theorem hands_perform (h : Host (StateM σ)) (policy : OutagePolicy) (strategy : Strategy)
    (hlatest : c.latest = none) (job : Job) (next : Continuation (StateM σ) ε α) :
    Leaves (perform (watchHost h) policy strategy c job (handNext next))
      (perform h policy strategy c job next) fun p new ↦
        let given := if strategy.locks then job.informed (c.firstRead new) else job
        Handles given Performed.skipped (fun _ ↦ given) Performed.executed p.result p.job
          (runs new) := by
  cases strategy with
  | untilExecuting => exact hands_performUntilExecuting policy hlatest job
  | untilExecuted => exact hands_performUntilExecuted hlatest job
  | never =>
    change Leaves (pass (handNext next) Performed.executed c job)
      (pass next Performed.executed c job) fun p new ↦
        Handles job Performed.skipped (fun _ ↦ job) Performed.executed p.result p.job (runs new)
    exact hands_pass c job

/-! ### The gate -/

/-- `Leaves` from one state on. -/
def LeavesFrom (s : σ) (x : Watched σ ρ α) (y : StateM σ α) (P : α → List (Mark ρ) → Prop) : Prop :=
  ∀ marks, ∃ new, (x.run marks).run s = (((y.run s).1, marks ++ new), (y.run s).2) ∧
    P (y.run s).1 new

namespace LeavesFrom

variable {β : Type} {s : σ} {x : Watched σ ρ α} {y : StateM σ α} {P : α → List (Mark ρ) → Prop}

/-- An act that leaves no mark comes first. -/
theorem bind {f : α → Watched σ ρ β} {g : α → StateM σ β} {R : β → List (Mark ρ) → Prop}
    (h : Leaves x y fun _ new ↦ new = [])
    (hf : LeavesFrom (y.run s).2 (f (y.run s).1) (g (y.run s).1) R) :
    LeavesFrom s (x >>= f) (y >>= g) R := by
  intro marks
  obtain ⟨new, hx, rfl⟩ := h marks s
  obtain ⟨more, hfa, hR⟩ := hf marks
  refine ⟨more, ?_, hR⟩
  change ((x.run marks).run s >>= fun p ↦ ((f p.1.1).run p.1.2).run p.2) = _
  rw [hx, List.append_nil]
  exact hfa

theorem map {f : α → β} {R : β → List (Mark ρ) → Prop} (h : Leaves x y P)
    (hR : ∀ a new, P a new → R (f a) new) :
    LeavesFrom s (x >>= fun a ↦ Pure.pure (f a)) (y >>= fun a ↦ Pure.pure (f a)) R := by
  have hboth : Leaves (x >>= fun a ↦ Pure.pure (f a)) (y >>= fun a ↦ Pure.pure (f a)) R := by
    apply h.bind
    intro a new hP
    apply Leaves.pure
    rw [List.append_nil]
    exact hR a new hP
  exact fun marks ↦ hboth marks s

end LeavesFrom

end Passage

theorem Job.text_identify (keyspace : String) (job : Job) :
    (job.identify keyspace).1.text =
      job.key.getD (JobKey.derive keyspace job.queue job.worker job.args).text := by
  rw [identify]
  cases job.key <;> rfl

namespace Gate

open Passage

variable {σ ρ ε α : Type} (g : Gate (StateM σ))

def watched : Gate (Watched σ ρ) where
  settings := g.settings
  host := watchHost g.host
  worker? name := unseen (g.worker? name)
  isOn name := unseen (g.isOn name)

theorem leaves_claimant (job : Job) :
    Leaves ((g.watched (ρ := ρ)).claimant job) (g.claimant job) fun _ new ↦ new = [] := by
  apply Leaves.bind (Leaves.unseen (g.worker? job.worker))
  intro w new hnew
  subst hnew
  exact Leaves.pure rfl

theorem leaves_strategyOf (c : Claimant) :
    Leaves ((g.watched (ρ := ρ)).strategyOf c) (g.strategyOf c) fun _ new ↦ new = [] := by
  apply Leaves.bind (Leaves.unseen (g.isOn c.workerName))
  intro on new hnew
  subst hnew
  rw [Claimant.strategy, Claimant.strategy]
  cases Strategy.passedOver? c.worker on with
  | none => exact Leaves.pure rfl
  | some name =>
    apply Leaves.bind (Leaves.unseen _)
    intro u new hnew
    subst hnew
    exact Leaves.pure rfl

/-- The gate tells that the job has come and lets it go by the strategy. -/
theorem leavesFrom_enter {β : Type} (stage : Stage) (c : Claimant) (job : Job) (s : σ)
    {x : Strategy → Watched σ ρ (Passage β)} {y : Strategy → StateM σ (Passage β)}
    (R : Strategy → β × Job → List (Mark ρ) → Prop)
    (h : ∀ strategy, Leaves (x strategy) (y strategy) fun p ↦ R strategy (p.result, p.job)) :
    LeavesFrom s
      (do
        let strategy ← g.watched.strategyOf c
        g.watched.host.emit (.entered stage job.id job.worker strategy)
        let p ← x strategy
        pure (p.result, p.job))
      (do
        let strategy ← g.strategyOf c
        g.host.emit (.entered stage job.id job.worker strategy)
        let p ← y strategy
        pure (p.result, p.job)) (R (Id.run ((g.strategyOf c).run s)).1) :=
  .bind (g.leaves_strategyOf c) <| .bind (Leaves.unseen _) <| .map (h _) fun _ _ hR ↦ hR

theorem run_strategyOf (c : Claimant) (s : σ) :
    (Id.run ((g.strategyOf c).run s)).1 =
      Strategy.ofWorker c.worker (Id.run ((g.isOn c.workerName).run s)).1 := by
  rw [strategyOf, StateT.run_bind, Id.run_bind, Claimant.strategy]
  cases Strategy.passedOver? c.worker (Id.run ((g.isOn c.workerName).run s)).1 <;> rfl

/-- A job is given its key and, to be performed under a strategy that locks, the furthest positions
that the store has answered with, if there are any. So it is handed to the continuation, and what
that leaves is left alone; so it is left where the continuation does not run, but for a duplicate
that is dropped, which is told whose it is. -/
theorem touches_job (job : Job) (next : Continuation (StateM σ) ε α) (s : σ) :
    let looked := Id.run ((g.worker? job.worker).run s)
    let on := (Id.run ((g.isOn job.worker).run looked.2)).1
    let c := (Claimant.ofJob g.settings looked.1 job).1
    let derived := JobKey.derive g.settings.keyspace job.queue job.worker job.args
    let known := { job with key := some (job.key.getD derived.text) }
    LeavesFrom s (g.watched.schedule job (handNext next)) (g.schedule job next) (fun r marks ↦
      Handles known Scheduled.dropped (fun winner ↦ { known with duplicateOf := some winner })
        Scheduled.enqueued r.1 r.2 (runs marks)) ∧
    LeavesFrom s (g.watched.perform job (handNext next)) (g.perform job next) fun r marks ↦
      let given :=
        if (Strategy.ofWorker looked.1 on).locks then known.informed (c.firstRead marks) else known
      given = { known with latest := given.latest } ∧
        Handles given Performed.skipped (fun _ ↦ given) Performed.executed r.1 r.2
          (runs marks) := by
  intro looked on c derived known
  obtain ⟨hworker, hname, -, -, -, -, hlatest, -⟩ := Claimant.ofJob_facts g.settings looked.1 job
  have hknown : (Claimant.ofJob g.settings looked.1 job).2 = known := by
    have hjob : (Claimant.ofJob g.settings looked.1 job).2 = (job.identify g.settings.keyspace).2 :=
      rfl
    rw [hjob, Job.identify_job, Job.text_identify]
  have hstrategy : (Id.run ((g.strategyOf c).run looked.2)).1 = Strategy.ofWorker looked.1 on := by
    rw [run_strategyOf, hworker, hname]
  have hframe (strategy : Strategy) (read : Option (Dictionary String)) :
      let given := if strategy.locks then known.informed read else known
      given = { known with latest := given.latest } := by
    cases strategy.locks with
    | true => exact Job.informed_eq known read
    | false => rfl
  constructor
  · have hscheduled := g.leavesFrom_enter .schedule c known looked.2
      (fun _ r marks ↦ Handles known Scheduled.dropped
        (fun winner ↦ { known with duplicateOf := some winner }) Scheduled.enqueued r.1 r.2
          (runs marks))
      fun strategy ↦ hands_schedule g.host g.settings.policy strategy c known next
    rw [← hknown] at hscheduled ⊢
    exact .bind (g.leaves_claimant job) hscheduled
  · have hperformed := g.leavesFrom_enter .perform c known looked.2
      (fun strategy r marks ↦
        let given := if strategy.locks then known.informed (c.firstRead marks) else known
        given = { known with latest := given.latest } ∧
          Handles given Performed.skipped (fun _ ↦ given) Performed.executed r.1 r.2 (runs marks))
      fun strategy ↦ (hands_perform g.host g.settings.policy strategy hlatest known next).imp
        fun _ _ hp ↦ ⟨hframe strategy _, hp⟩
    rw [hstrategy, ← hknown] at hperformed
    rw [← hknown]
    exact .bind (g.leaves_claimant job) hperformed

end Gate

end UniqueJobs
