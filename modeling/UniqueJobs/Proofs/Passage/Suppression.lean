import UniqueJobs.Proofs.Passage.Watched

/-!
No job is kept from passing but as a duplicate or, by policy, where the store could not be asked.
Main statement: `passage_settles`, for every host, whatever its store answers, for every strategy,
policy and continuation, on both sides of the queue.
-/

namespace UniqueJobs.Passage

variable {σ ε α β : Type}

def outcome (wrap : α → β) : Except ε α → Except (Failure ε) β
  | .ok a => .ok (wrap a)
  | .error e => .error (.job e)

/-- How a passage ends that asks who holds the window exactly if `asks` is true. -/
structure Settles (asks : Bool) (policy : OutagePolicy) (c : Claimant) (drop : JobId → β)
    (wrap : α → β) (result : Except (Failure ε) β) (marks : List (Mark (Except ε α))) : Prop where
  /-- The window is claimed once or not at all. -/
  asked : (verdicts c marks).length = if asks then 1 else 0
  /-- The continuation does not run in two cases only. -/
  suppressed : runs marks = [] ↔
    (∃ winner, verdicts c marks = [.ok winner] ∧ winner ≠ c.id) ∨
      ∃ e, verdicts c marks = [.error e] ∧ policy = .refuse
  /-- The first case: the duplicate is told of the holder. -/
  dropped : ∀ winner, verdicts c marks = [.ok winner] → winner ≠ c.id →
    result = .ok (drop winner)
  /-- The second case: the failure is that of the check. -/
  refused : ∀ e, verdicts c marks = [.error e] → policy = .refuse → result = .error (.refused e)
  /-- Else the continuation runs once and the result is its own. -/
  passed : runs marks ≠ [] → ∃ r, runs marks = [r] ∧ result = outcome wrap r

def lets (policy : OutagePolicy) (c : Claimant) : Except ClaimError JobId → Bool
  | .ok winner => winner = c.id
  | .error _ => policy = .proceed

def refusal (drop : JobId → β) : Except ClaimError JobId → Except (Failure ε) β
  | .ok winner => .ok (drop winner)
  | .error e => .error (.refused e)

namespace Settles

variable {policy : OutagePolicy} {c : Claimant} {drop : JobId → β} {wrap : α → β}
  {marks : List (Mark (Except ε α))} {result : Except (Failure ε) β}

theorem of_unasked {r : Except ε α} (h : Shows c marks [] [r])
    (hresult : result = outcome wrap r) : Settles false policy c drop wrap result marks where
  asked := by rw [h.verdicts]; rfl
  suppressed := by simp [h.verdicts, h.runs]
  dropped winner hv := by cases h.verdicts.symm.trans hv
  refused e hv := by cases h.verdicts.symm.trans hv
  passed _ := ⟨r, h.runs, hresult⟩

theorem of_let {v : Except ClaimError JobId} {r : Except ε α} (h : Shows c marks [v] [r])
    (hlets : lets policy c v = true) (hresult : result = outcome wrap r) :
    Settles true policy c drop wrap result marks where
  asked := by rw [h.verdicts]; rfl
  suppressed := by
    rw [h.verdicts, h.runs]
    cases v <;> simp_all [lets]
  dropped winner hv hne := by
    cases h.verdicts.symm.trans hv
    exact absurd (of_decide_eq_true hlets) hne
  refused e hv hpolicy := by
    cases h.verdicts.symm.trans hv
    rw [hpolicy] at hlets
    cases hlets
  passed _ := ⟨r, h.runs, hresult⟩

theorem of_refusal {v : Except ClaimError JobId} (h : Shows c marks [v] [])
    (hlets : lets policy c v = false) (hresult : result = refusal drop v) :
    Settles true policy c drop wrap result marks where
  asked := by rw [h.verdicts]; rfl
  suppressed := by
    refine ⟨fun _ ↦ ?_, fun _ ↦ h.runs⟩
    cases v with
    | ok winner => exact .inl ⟨winner, h.verdicts, of_decide_eq_false hlets⟩
    | error e =>
      refine .inr ⟨e, h.verdicts, ?_⟩
      cases policy with
      | proceed => cases hlets
      | refuse => rfl
  dropped winner hv _ := by
    cases h.verdicts.symm.trans hv
    exact hresult
  refused e hv _ := by
    cases h.verdicts.symm.trans hv
    exact hresult
  passed hran := absurd h.runs hran

end Settles

/-- A check claims the window once, and its answer is what the claimant makes of the replies. -/
theorem leaves_check {ρ : Type} (h : Host (StateM σ)) (c : Claimant) (window : Duration) :
    Leaves (c.check (watchHost (ρ := ρ) h).store (watchHost h).emit window)
      (c.check h.store h.emit window) fun r new ↦ Shows c new [r.1] [] ∧ r.2.id = c.id := by
  apply Leaves.bind (Leaves.batch h.store (c.claimWrites window ++ c.claimReads))
  intro answer new hnew
  subst hnew
  have hclaims : claims (c.claimWrites window ++ c.claimReads) = true := rfl
  have hshows : Shows (ρ := ρ) c [.batch (c.claimWrites window ++ c.claimReads) answer]
      [c.verdict answer] [] := ⟨if_pos hclaims, rfl⟩
  cases answer with
  | error e => exact Leaves.pure ⟨hshows, rfl⟩
  | ok replies =>
    cases hread : c.readClaim replies with
    | error e =>
      rw [Claimant.verdict, hread] at hshows
      simp only [hread]
      exact Leaves.pure ⟨hshows, rfl⟩
    | ok found =>
      rw [Claimant.verdict, hread] at hshows
      simp only [hread]
      apply Leaves.bind (Idles.emit h _)
      intro u more hmore
      exact Leaves.pure ⟨hshows.append ((hmore.append .nil).shows c), rfl⟩

theorem leaves_next (next : Continuation (StateM σ) ε α) (job : Job) :
    Leaves (watchNext next job) (next job) fun p new ↦ new = [.ran p.1] := by
  change Leaves _ (next job >>= fun p ↦ pure (p.1, p.2)) _
  apply Leaves.bind (Leaves.unseen (next job))
  intro p new hnew
  subst hnew
  exact Leaves.bind_mark (Leaves.pure rfl)

theorem leaves_pass (next : Continuation (StateM σ) ε α) (wrap : α → β) (c : Claimant)
    (job : Job) :
    Leaves (pass (watchNext next) wrap c job) (pass next wrap c job) fun p new ↦
      ∃ r, new = [.ran r] ∧ p.result = outcome wrap r := by
  apply Leaves.bind (leaves_next next job)
  intro p new hnew
  obtain ⟨r, job⟩ := p
  subst hnew
  cases r with
  | ok a => exact Leaves.pure ⟨.ok a, rfl, rfl⟩
  | error e => exact Leaves.pure ⟨.error e, rfl, rfl⟩

theorem leaves_afterFailedCheck (h : Host (StateM σ)) (stage : Stage) (policy : OutagePolicy)
    (next : Continuation (StateM σ) ε α) (drop : JobId → β) (wrap : α → β) {c : Claimant}
    (c' : Claimant) (job : Job) {e : ClaimError} {checked : List (Mark (Except ε α))}
    (hchecked : Shows c checked [.error e] []) :
    Leaves (afterFailedCheck (watchHost h) stage policy (watchNext next) wrap c' job e)
      (afterFailedCheck h stage policy next wrap c' job e) fun p new ↦
        Settles true policy c drop wrap p.result (checked ++ new) := by
  apply Leaves.bind (Idles.emit h _)
  intro u first hfirst
  have hbefore := hfirst.shows c
  cases policy with
  | refuse =>
    apply Leaves.pure
    exact .of_refusal (hchecked.append (hbefore.append (Idle.nil.shows c))) rfl rfl
  | proceed =>
    apply (leaves_pass next wrap c' job).imp
    intro p new hp
    obtain ⟨r, rfl, hresult⟩ := hp
    exact .of_let (hchecked.append (hbefore.append (.ran c r))) rfl hresult

theorem leaves_scheduleLocked (h : Host (StateM σ)) (policy : OutagePolicy) (strategy : Strategy)
    (c : Claimant) (job : Job) (next : Continuation (StateM σ) ε α) :
    Leaves (scheduleLocked (watchHost h) policy strategy c job (watchNext next))
      (scheduleLocked h policy strategy c job next) fun p new ↦
        Settles (!(c.runAt.isSome && !c.uniqueness.includingScheduled)) policy c .dropped .enqueued
          p.result new := by
  rw [scheduleLocked, scheduleLocked]
  by_cases hbypass : (c.runAt.isSome && !c.uniqueness.includingScheduled) = true
  · simp only [hbypass, ↓reduceIte]
    apply (leaves_pass next Scheduled.enqueued c job).imp
    intro p new hp
    obtain ⟨r, rfl, hresult⟩ := hp
    exact .of_unasked (.ran c r) hresult
  simp only [hbypass, Bool.false_eq_true, ↓reduceIte, Bool.not_false]
  apply Leaves.bind (Leaves.unseen h.now)
  intro now new hnew
  subst hnew
  apply Leaves.bind (leaves_check h c (c.window now))
  intro r checked hr
  obtain ⟨v, c'⟩ := r
  obtain ⟨hchecked, hid⟩ := hr
  simp only at hchecked hid
  cases v with
  | error e =>
    exact leaves_afterFailedCheck h .schedule policy next Scheduled.dropped Scheduled.enqueued c'
      job hchecked
  | ok winner =>
    apply Leaves.bind (Idles.offerLocations h c')
    intro offered first hfirst
    apply Leaves.bind (Idles.note offered)
    intro u second hsecond
    by_cases hwinner : winner = c'.id
    · have hlets : lets policy c (.ok winner) = true := decide_eq_true (hwinner.trans hid)
      simp only [hwinner, ↓reduceIte]
      apply (leaves_pass next Scheduled.enqueued c' job).imp
      intro p new hp
      obtain ⟨r, rfl, hresult⟩ := hp
      have hshows := hchecked.append ((hfirst.shows c).append ((hsecond.shows c).append (.ran c r)))
      exact .of_let hshows hlets hresult
    · have hlets : lets policy c (.ok winner) = false := by
        rw [hid] at hwinner
        exact decide_eq_false hwinner
      simp only [hwinner, ↓reduceIte]
      apply Leaves.bind (Idles.setFlag h c' _)
      intro flagged third hthird
      apply Leaves.bind (Idles.note flagged)
      intro u' fourth hfourth
      apply Leaves.bind (Idles.emit h _)
      intro u'' fifth hfifth
      have hrest := hfirst.append (hsecond.append (hthird.append (hfourth.append
        (hfifth.append .nil))))
      exact Leaves.pure (.of_refusal (hchecked.append (hrest.shows c)) hlets rfl)

theorem leaves_performUntilExecuting (h : Host (StateM σ)) (policy : OutagePolicy) (c : Claimant)
    (job : Job) (next : Continuation (StateM σ) ε α) :
    Leaves (performUntilExecuting (watchHost h) policy c job (watchNext next))
      (performUntilExecuting h policy c job next) fun p new ↦
        Settles true policy c Performed.skipped Performed.executed p.result new := by
  apply Leaves.bind (leaves_attachLatest h c job)
  intro attached first hattached
  obtain ⟨c', job⟩ := attached
  obtain ⟨hfirst, latest, rfl⟩ := hattached
  apply Leaves.bind (Leaves.unseen h.now)
  intro now new hnew
  subst hnew
  apply Leaves.bind (leaves_check h { c with latest } _)
  intro r checked hr
  obtain ⟨v, c'⟩ := r
  obtain ⟨hasked, hid⟩ := hr
  simp only at hasked hid
  have hchecked : Shows c (first ++ checked) [v] [] := (hfirst.shows c).append hasked.of_latest
  cases v with
  | error e =>
    apply (leaves_afterFailedCheck h .perform policy next Performed.skipped Performed.executed c'
      job hchecked).imp
    intro p new hp
    rw [List.append_assoc] at hp
    exact hp
  | ok winner =>
    by_cases hwinner : winner = c'.id
    · have hlets : lets policy c (.ok winner) = true := decide_eq_true (hwinner.trans hid)
      simp only [hwinner, ↓reduceIte]
      apply Leaves.bind (leaves_next next job)
      intro ran new hran
      obtain ⟨r, job⟩ := ran
      subst hran
      have hshows {last : List (Mark (Except ε α))} (hlast : Idle last) :
          Shows c (first ++ (checked ++ ([.ran r] ++ last))) [.ok winner] [r] := by
        rw [← List.append_assoc]
        exact hchecked.append ((Shows.ran c r).append (hlast.shows c))
      cases r with
      | error e => exact Leaves.pure (.of_let (hshows .nil) hlets rfl)
      | ok a =>
        apply Leaves.bind Idles.letGo
        intro u last hlast
        exact Leaves.pure (.of_let (hshows (hlast.append .nil)) hlets rfl)
    · have hlets : lets policy c (.ok winner) = false := by
        rw [hid] at hwinner
        exact decide_eq_false hwinner
      simp only [hwinner, ↓reduceIte]
      apply Leaves.bind (Idles.emit h _)
      intro u last hlast
      apply Leaves.pure
      have hshows := hchecked.append ((hlast.append .nil).shows c)
      rw [List.append_assoc] at hshows
      exact .of_refusal hshows hlets rfl

theorem leaves_performUntilExecuted (h : Host (StateM σ)) (policy : OutagePolicy) (c : Claimant)
    (job : Job) (next : Continuation (StateM σ) ε α) :
    Leaves (performUntilExecuted (watchHost h) c job (watchNext next))
      (performUntilExecuted h c job next) fun p new ↦
        Settles false policy c Performed.skipped Performed.executed p.result new := by
  apply Leaves.bind (leaves_attachLatest h c job)
  intro attached first hattached
  obtain ⟨c', job⟩ := attached
  obtain ⟨hfirst, -⟩ := hattached
  apply Leaves.bind (leaves_next next job)
  intro ran new hran
  obtain ⟨r, job⟩ := ran
  subst hran
  apply Leaves.bind Idles.readFlag
  intro flagged second hsecond
  apply Leaves.bind Idles.letGo
  intro u third hthird
  have hshows {last : List (Mark (Except ε α))} (hlast : Idle last) :
      Shows c (first ++ ([.ran r] ++ (second ++ (third ++ last)))) [] [r] :=
    (hfirst.shows c).append ((Shows.ran c r).append
      ((hsecond.append (hthird.append hlast)).shows c))
  cases r with
  | error e => exact Leaves.pure (.of_unasked (hshows .nil) rfl)
  | ok a =>
    cases flagged with
    | false => exact Leaves.pure (.of_unasked (hshows .nil) rfl)
    | true =>
      apply Leaves.bind Idles.runAgain
      intro u' last hlast
      exact Leaves.pure (.of_unasked (hshows (hlast.append .nil)) rfl)

/-- Every passage settles, whatever the host does: it claims the window where its side and strategy
say so, and only another holder or a refusal by policy keeps the continuation from running. -/
theorem passage_settles (h : Host (StateM σ)) (policy : OutagePolicy) (strategy : Strategy)
    (c : Claimant) (job : Job) (next : Continuation (StateM σ) ε α) :
    Leaves (schedule (watchHost h) policy strategy c job (watchNext next))
      (schedule h policy strategy c job next) (fun p marks ↦
        Settles (strategy.locks && !(c.runAt.isSome && !c.uniqueness.includingScheduled)) policy c
          Scheduled.dropped Scheduled.enqueued p.result marks) ∧
    Leaves (perform (watchHost h) policy strategy c job (watchNext next))
      (perform h policy strategy c job next) (fun p marks ↦
        Settles (strategy = .untilExecuting) policy c Performed.skipped Performed.executed
          p.result marks) := by
  constructor
  · cases strategy with
    | untilExecuting | untilExecuted => exact leaves_scheduleLocked h policy _ c job next
    | never =>
      apply (leaves_pass next Scheduled.enqueued c job).imp
      intro p new hp
      obtain ⟨r, rfl, hresult⟩ := hp
      exact .of_unasked (.ran c r) hresult
  · cases strategy with
    | untilExecuting => exact leaves_performUntilExecuting h policy c job next
    | untilExecuted => exact leaves_performUntilExecuted h policy c job next
    | never =>
      apply (leaves_pass next Performed.executed c job).imp
      intro p new hp
      obtain ⟨r, rfl, hresult⟩ := hp
      exact .of_unasked (.ran c r) hresult

end UniqueJobs.Passage
