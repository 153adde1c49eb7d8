import UniqueJobs.Proofs.Journal.Calls

/-!
One pass of a job at a calm site, in two parts: what comes before the continuation (`Pass.Enters`,
or `Pass.Barred` where it does not come to it) and what comes after (`Pass.Leaves`).
-/

namespace UniqueJobs

open Entries

inductive Outcome
  | ended (result : Except String Unit)
  | barred (winner : JobId)
  | refused (e : ClaimError)

namespace Outcome

def scheduled : Outcome → Except (Failure String) (Scheduled Unit)
  | ended (.ok ()) => .ok (.enqueued ())
  | ended (.error e) => .error (.job e)
  | barred winner => .ok (.dropped winner)
  | refused e => .error (.refused e)

def performed : Outcome → Except (Failure String) (Performed Unit)
  | ended (.ok ()) => .ok (.executed ())
  | ended (.error e) => .error (.job e)
  | barred winner => .ok (.skipped winner)
  | refused e => .error (.refused e)

theorem scheduled_ended (result : Except String Unit) :
    (ended result).scheduled = match result with
      | .ok () => .ok (.enqueued ())
      | .error e => .error (.job e) := by
  cases result <;> rfl

theorem performed_ended (result : Except String Unit) :
    (ended result).performed = match result with
      | .ok () => .ok (.executed ())
      | .error e => .error (.job e) := by
  cases result <;> rfl

def note (caller : Caller) (o : Outcome) (s : Site) : Note :=
  match caller.stage with
  | .schedule => .scheduled caller o.scheduled s
  | .perform => .performed caller o.performed s

end Outcome

/-- An instance on its way through the gate. -/
structure Pass where
  strategy : Strategy
  policy : OutagePolicy
  measure : String → String → String → Except LsnError Int64
  caller : Caller
  claimant : Claimant
  job : Job

namespace Pass

def ofJob (settings : Settings) (strategy : Strategy)
    (measure : String → String → String → Except LsnError Int64) (caller : Caller)
    (worker : Option Worker) (job : Job) : Pass where
  strategy
  policy := settings.policy
  measure
  caller
  claimant := (Claimant.ofJob settings worker job).1
  job := (Claimant.ofJob settings worker job).2

@[simp] theorem caller_ofJob (settings : Settings) (strategy : Strategy)
    (measure : String → String → String → Except LsnError Int64) (caller : Caller)
    (worker : Option Worker) (job : Job) :
    (ofJob settings strategy measure caller worker job).caller = caller := rfl

theorem key_ofJob {settings : Settings} {strategy : Strategy}
    {measure : String → String → String → Except LsnError Int64} {caller : Caller}
    {worker : Option Worker} {job : Job} :
    (ofJob settings strategy measure caller worker job).claimant.key =
      (job.identify settings.keyspace).1 :=
  (Claimant.ofJob_facts settings worker job).2.2.2.1

theorem id_ofJob {settings : Settings} {strategy : Strategy}
    {measure : String → String → String → Except LsnError Int64} {caller : Caller}
    {worker : Option Worker} {job : Job} :
    (ofJob settings strategy measure caller worker job).claimant.id = job.id :=
  (Claimant.ofJob_facts settings worker job).2.2.1

theorem runAt_ofJob {settings : Settings} {strategy : Strategy}
    {measure : String → String → String → Except LsnError Int64} {caller : Caller}
    {worker : Option Worker} {job : Job} :
    (ofJob settings strategy measure caller worker job).claimant.runAt = job.runAt :=
  (Claimant.ofJob_facts settings worker job).2.2.2.2.2.1

/-- A performed instance learns the furthest positions first. -/
inductive Reads (p : Pass) (s : Site) : List Note → Job → Site → Prop
  | schedule {s' : Site} (hstage : p.caller.stage = .schedule) (h : s.Quiet s') :
      Reads p s [] p.job s'
  | perform {notes : List Note} {job : Job} {s' : Site} (hstage : p.caller.stage = .perform)
      (h : Attaches p.caller p.claimant p.job s notes job s') : Reads p s notes job s'

/-- A claim that is answered, and the offers that follow it. -/
inductive Claims (p : Pass) (winner : JobId) (s : Site) : List Note → Site → Prop
  | intro {window : Duration} {baselines : Dictionary String} {contacts : List Contact}
      {first more : List Note} {s₁ s' : Site}
      (hclaim : Calls p.caller p.claimant [.claim window] s first s₁)
      (hwinner : text? s.clock p.claimant.key.text s₁.store.entries = some winner.text)
      (hbaselines : ∀ config, baselines.get? config =
        if p.claimant.locations.contains config = true then
          text? s.clock (p.claimant.key.baseline config) s₁.store.entries
        else none)
      (hcalls : Calls p.caller p.claimant contacts s₁ more s')
      (hoffers : ∀ contact ∈ contacts, contact.Offers { p.claimant with baselines } p.measure)
      (hwindow : s.date?.map p.claimant.window = some window) :
      Claims p winner s (first ++ more) s'

/-- Is the window claimed before the job is let through? -/
def Asks (p : Pass) : Prop := p.caller.stage = .schedule ∨ p.strategy = .untilExecuting

/-- What comes before the continuation, and whether the window was found to be the instance's. -/
inductive Enters (p : Pass) (s : Site) : Bool → List Note → Job → Site → Prop
  | bypass {s' : Site} (hstage : p.caller.stage = .schedule)
      (hrunAt : p.claimant.runAt.isSome = true)
      (hexcluded : p.claimant.uniqueness.includingScheduled = false) (h : s.Quiet s') :
      Enters p s false [] p.job s'
  | unasked {notes : List Note} {job : Job} {s' : Site} (hstage : p.caller.stage = .perform)
      (hstrategy : p.strategy = .untilExecuted) (h : p.Reads s notes job s') :
      Enters p s false notes job s'
  | unanswered {window : Duration} {notes more : List Note} {job : Job} {s₁ s' : Site}
      (hasks : p.Asks) (hpolicy : p.policy = .proceed) (hread : p.Reads s notes job s₁)
      (hclaim : Calls p.caller p.claimant [.claim window] s₁ more s')
      (hsound : ¬ Sound p.claimant.key s₁.clock s₁.store.entries)
      (hwindow : s₁.date?.map p.claimant.window = some window) :
      Enters p s false (notes ++ more) job s'
  | own {notes more : List Note} {job : Job} {s₁ s' : Site} (hasks : p.Asks)
      (hread : p.Reads s notes job s₁) (hclaims : p.Claims p.claimant.id s₁ more s') :
      Enters p s true (notes ++ more) job s'

/-- The flag is set on the side that schedules alone. -/
def flagWrites (p : Pass) (ttl : Duration) : List Contact :=
  match p.caller.stage with
  | .schedule => p.claimant.flagWrites ttl
  | .perform => []

inductive Barred (p : Pass) (s : Site) : Outcome → List Note → Site → Prop
  | refused {window : Duration} {e : ClaimError} {notes more : List Note} {job : Job}
      {s₁ s' : Site} (hasks : p.Asks) (hread : p.Reads s notes job s₁)
      (hclaim : Calls p.caller p.claimant [.claim window] s₁ more s')
      (hsound : ¬ Sound p.claimant.key s₁.clock s₁.store.entries) :
      Barred p s (.refused e) (notes ++ more) s'
  | foreign {winner : JobId} {ttl : Duration} {notes more last : List Note} {job : Job}
      {s₁ s₂ s' : Site} (hasks : p.Asks) (hread : p.Reads s notes job s₁)
      (hclaims : p.Claims winner s₁ more s₂) (hne : winner ≠ p.claimant.id)
      (hflag : Calls p.caller p.claimant (p.flagWrites ttl) s₂ last s')
      (hwindow : s.date?.map p.claimant.window = some ttl) :
      Barred p s (.barred winner) (notes ++ more ++ last) s'

inductive Leaves (p : Pass) (s : Site) : Bool → Except String Unit → List Note → Site → Prop
  | schedule {held : Bool} {result : Except String Unit} {s' : Site}
      (hstage : p.caller.stage = .schedule) (h : s.Quiet s') : Leaves p s held result [] s'
  | kept {held : Bool} {result : Except String Unit} {s' : Site}
      (hstage : p.caller.stage = .perform) (hstrategy : p.strategy = .untilExecuting)
      (hkept : held = false ∨ ∃ e, result = .error e) (h : s.Quiet s') :
      Leaves p s held result [] s'
  | released {notes : List Note} {s' : Site} (hstage : p.caller.stage = .perform)
      (hstrategy : p.strategy = .untilExecuting)
      (h : Calls p.caller p.claimant [.release] s notes s') : Leaves p s true (.ok ()) notes s'
  | cleared {held : Bool} {result : Except String Unit} {notes : List Note} {s₁ s' : Site}
      (hstage : p.caller.stage = .perform) (hstrategy : p.strategy = .untilExecuted)
      (h : Calls p.caller p.claimant (p.claimant.flagReads ++ [.release]) s notes s₁)
      (hlast : s₁.Still s') : Leaves p s held result notes s'

/-- What is handed over to run again once the continuation has ended at a site. -/
def handedOver (p : Pass) (s : Site) (result : Except String Unit) (job : Job) : List Job :=
  match p.caller.stage, p.strategy, result with
  | .perform, .untilExecuted, .ok () =>
    if p.claimant.findsFlag s then [s.respawned job] else []
  | _, _, _ => []

theorem flagWrites_of_schedule {p : Pass} (h : p.caller.stage = .schedule) (ttl : Duration) :
    p.flagWrites ttl = p.claimant.flagWrites ttl := by
  rw [flagWrites, h]

theorem flagWrites_of_perform {p : Pass} (h : p.caller.stage = .perform) (ttl : Duration) :
    p.flagWrites ttl = [] := by
  rw [flagWrites, h]

theorem handedOver_of_schedule {p : Pass} (h : p.caller.stage = .schedule) (s : Site)
    (result : Except String Unit) (job : Job) : p.handedOver s result job = [] := by
  unfold handedOver
  rw [h]

theorem handedOver_of_untilExecuting {p : Pass} (h : p.strategy = .untilExecuting) (s : Site)
    (result : Except String Unit) (job : Job) : p.handedOver s result job = [] := by
  unfold handedOver
  rw [h]
  cases p.caller.stage <;> rfl

theorem handedOver_error (p : Pass) (s : Site) (e : String) (job : Job) :
    p.handedOver s (.error e) job = [] := by
  unfold handedOver
  cases p.caller.stage <;> cases p.strategy <;> rfl

theorem handedOver_ok {p : Pass} (hstage : p.caller.stage = .perform)
    (hstrategy : p.strategy = .untilExecuted) (s : Site) (job : Job) :
    p.handedOver s (.ok ()) job = if p.claimant.findsFlag s then [s.respawned job] else [] := by
  unfold handedOver
  rw [hstage, hstrategy]

/-- The ways that a pass may go, `N` being what holds of its continuation. -/
inductive Goes (p : Pass)
    (N : Job → Site → Except String Unit × Job → List Note → Site → Prop) (s : Site) :
    Outcome → List Note → Site → Prop
  | barred {o : Outcome} {notes : List Note} {s' : Site} (h : p.Barred s o notes s') :
      Goes p N s o notes s'
  | through {held : Bool} {result : Except String Unit} {job job' : Job}
      {before within after : List Note} {s₁ s₂ s' : Site}
      (henters : p.Enters s held before job s₁) (hnext : N job s₁ (result, job') within s₂)
      (hleaves : p.Leaves s₂ held result after s')
      (hhands : s'.rescheduled = s₂.rescheduled ++ p.handedOver s₂ result job') :
      Goes p N s (.ended result) (before ++ within ++ after) s'

theorem eq_setFlag_of_mem {p : Pass} {ttl : Duration} {contact : Contact}
    (h : contact ∈ p.flagWrites ttl) : contact = .setFlag ttl := by
  rw [flagWrites] at h
  split at h
  · exact Claimant.eq_setFlag_of_mem h
  · cases h

section

variable {p : Pass} {s s' s'' : Site} {notes : List Note} {job : Job}

theorem Reads.like (h : p.Reads s notes job s') : s.Like s' := by
  cases h with
  | schedule _ h => exact h.like
  | perform _ h =>
    cases h with
    | nothing _ h => exact h.like
    | failed _ h => exact h.like
    | answered _ _ h => exact h.like

theorem Claims.like {winner : JobId} (h : p.Claims winner s notes s') : s.Like s' := by
  cases h with
  | intro hclaim _ _ hcalls _ => exact hclaim.like.trans hcalls.like

theorem Enters.like {held : Bool} (h : p.Enters s held notes job s') : s.Like s' := by
  cases h with
  | bypass _ _ _ h => exact h.like
  | unasked _ _ h => exact h.like
  | unanswered _ _ hread hclaim => exact hread.like.trans hclaim.like
  | own _ hread hclaims => exact hread.like.trans hclaims.like

theorem Barred.like {o : Outcome} (h : p.Barred s o notes s') : s.Like s' := by
  cases h with
  | refused _ hread hclaim => exact hread.like.trans hclaim.like
  | foreign _ hread hclaims _ hflag => exact (hread.like.trans hclaims.like).trans hflag.like

theorem Barred.asks {o : Outcome} (h : p.Barred s o notes s') : p.Asks := by
  cases h with
  | refused hasks => exact hasks
  | foreign hasks => exact hasks

theorem Leaves.like {held : Bool} {result : Except String Unit}
    (h : p.Leaves s held result notes s') : s.Like s' := by
  cases h with
  | schedule _ h => exact h.like
  | kept _ _ _ h => exact h.like
  | released _ _ h => exact h.like
  | cleared _ _ h hlast => exact h.like.trans hlast.like

/-- The only calls after the continuation are to read the flag and to release the records. -/
theorem Leaves.exists_contact {held : Bool} {result : Except String Unit}
    (h : p.Leaves s held result notes s') :
    ∀ n ∈ notes, ∃ (contact : Contact) (s₁ : Site), n = contact.note p.caller p.claimant s₁ ∧
      (contact = .readFlag ∨ contact = .release) := by
  cases h with
  | schedule => simp
  | kept => simp
  | released _ _ h =>
    intro n hn
    obtain ⟨s₁, -, rfl⟩ := h.eq_of_mem hn
    exact ⟨.release, s₁, rfl, .inr rfl⟩
  | cleared _ _ h =>
    intro n hn
    obtain ⟨contact, hcontact, s₁, rfl⟩ := h.exists_contact n hn
    refine ⟨contact, s₁, rfl, ?_⟩
    rcases List.mem_append.mp hcontact with hflag | hrelease
    · exact .inl (Claimant.eq_readFlag_of_mem hflag)
    · exact .inr (List.mem_singleton.mp hrelease)

end

end Pass

end UniqueJobs
