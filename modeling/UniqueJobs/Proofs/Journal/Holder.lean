import UniqueJobs.Proofs.Journal.Chain

/-!
The holder of the window along a journal. A claim finds the holder that there was or makes the
claimant the holder (`Claims.holder?_eq`), and no note but a release or a lapse takes the window
from it (`Chain.holds`).
-/

namespace UniqueJobs

open Entries

namespace Site

def holder? (k : JobKey) (s : Site) : Option JobId :=
  (text? s.clock k.text s.store.entries).map JobId.mk

variable {k : JobKey} {s s' : Site} {J : JobId}

theorem Still.holder? (h : s.Still s') (k : JobKey) : s'.holder? k = s.holder? k := by
  rw [Site.holder?, Site.holder?, h.clock, h.store]

theorem holder?_eq_some_iff : s.holder? k = some J ↔
    text? s.clock k.text s.store.entries = some J.text := by
  obtain ⟨text⟩ := J
  rw [holder?, Option.map_eq_some_iff]
  constructor
  · rintro ⟨found, hfound, heq⟩
    cases heq
    exact hfound
  · intro h
    exact ⟨text, h, rfl⟩

theorem holder?_of_advance {d : Duration} (h : (s.advance d).holder? k = some J) :
    s.holder? k = some J := by
  rw [holder?_eq_some_iff] at h ⊢
  obtain ⟨x, hlive⟩ := exists_live?_of_text? h
  have hle : s.clock.nanos ≤ (s.advance d).clock.nanos := Nat.le_add_right _ _
  rw [live?_of_le hle, Option.filter_eq_some_iff] at hlive
  exact text?_of_live? hlive.1

theorem holder?_of_live?_eq_none (h : s.store.entries.live? s.clock k.text = none) :
    s.holder? k = none := by
  rw [holder?, text?_of_live?_eq_none h]
  rfl

end Site

/-- An instance holds the window all the while that a note stands for. -/
def Note.Holds (k : JobKey) (J : JobId) (n : Note) : Prop :=
  n.before.holder? k = some J ∧ n.after.holder? k = some J

section

variable {k : JobKey} {M : Measures} {caller : Caller} {n : Note} {s s' : Site} {notes : List Note}
  {J : JobId}

theorem Touch.holder?_after (hn : Touch k M caller n) (h : n.before.holder? k = some J) :
    n.after.holder? k = some J := by
  cases hn with
  | @intro c contact s hkey hrelease _ =>
    rw [Site.holder?_eq_some_iff] at h ⊢
    obtain ⟨x, hlive⟩ := exists_live?_of_text? h
    exact text?_of_live? (Contact.keepsTexts c _ _ hrelease k.text J.text x hlive)

theorem Chain.holds (h : Chain (Touch k M caller) s notes s') (hs : s.holder? k = some J) :
    (∀ n ∈ notes, n.Holds k J) ∧ s'.holder? k = some J := by
  induction h with
  | rest hstill => exact ⟨by simp, (hstill.holder? k).trans hs⟩
  | step hstill hn _ ih =>
    have hbefore := (hstill.holder? k).trans hs
    have hafter := hn.holder?_after hbefore
    obtain ⟨hall, hlast⟩ := ih hafter
    exact ⟨List.forall_mem_cons.mpr ⟨⟨hbefore, hafter⟩, hall⟩, hlast⟩

end

namespace Pass

variable {k : JobKey} {M : Measures} {p : Pass} {s s' : Site} {notes : List Note} {winner : JobId}

/-- A claim finds the holder that there was, or makes the claimant the holder. -/
theorem Claims.holder?_eq (h : p.Claims winner s notes s') (hkey : p.claimant.key = k)
    (hM : M p.measure) : s'.holder? k = some winner ∧ (s.holder? k = some winner ∨
      s.store.entries.live? s.clock k.text = none ∧ winner = p.claimant.id) := by
  subst hkey
  cases h with
  | @intro window baselines contacts first more s₁ _ hclaim hwinner hbaselines hcalls hoffers =>
    have hclock := hclaim.like.clock
    have hfirst : s₁.holder? p.claimant.key = some winner := by
      rw [Site.holder?_eq_some_iff, hclock]
      exact hwinner
    constructor
    · refine ((hcalls.chain_offers (M := M) hM rfl hoffers ?_).holds hfirst).2
      intro config hcontains
      rw [hbaselines, if_pos hcontains, ← hclock]
    · have hlive := @Claimant.live?_claim s.clock p.claimant window s.store.entries .holder
      rw [Claimant.claimed_of_ne_configs (by simp)] at hlive
      change live? s.clock p.claimant.key.text ((Contact.claim window).effect p.claimant s.clock
        s.store.entries) = _ at hlive
      rw [← hclaim.entries_of_one] at hlive
      change _ = (s.store.entries.live? s.clock p.claimant.key.text).or _ at hlive
      cases hfound : s.store.entries.live? s.clock p.claimant.key.text with
      | none =>
        rw [hfound, Option.none_or] at hlive
        rw [text?_of_live? hlive] at hwinner
        exact .inr ⟨rfl, congrArg JobId.mk (Option.some.inj hwinner).symm⟩
      | some e =>
        rw [hfound, Option.some_or] at hlive
        rw [text?_congr (hlive.trans hfound.symm)] at hwinner
        exact .inl (Site.holder?_eq_some_iff.mpr hwinner)

theorem Reads.live? {job : Job} (h : p.Reads s notes job s') (name : String) :
    s'.store.entries.live? s'.clock name = s.store.entries.live? s.clock name := by
  rw [h.like.clock]
  have hread (hcalls : Calls p.caller p.claimant [.readLatest] s notes s') :
      s'.store.entries.live? s.clock name = s.store.entries.live? s.clock name := by
    rw [hcalls.entries_of_one]
    exact live?_carryOutAll_of_reads p.claimant.latestReads_reads _ name
  cases h with
  | schedule _ h => rw [h.store]
  | perform _ h =>
    cases h with
    | nothing _ h => rw [h.store]
    | failed _ h => exact hread h
    | answered _ _ h => exact hread h

theorem Reads.holder? {job : Job} (h : p.Reads s notes job s') (k : JobKey) :
    s'.holder? k = s.holder? k := by
  rw [Site.holder?, Site.holder?, text?, text?, h.live?]

/-- Of sound records, only the holder of the window keeps another instance from its continuation. -/
theorem Barred.exists_holder {o : Outcome} (h : p.Barred s o notes s')
    (hkey : p.claimant.key = k) (hM : M p.measure) (hs : Sound k s.clock s.store.entries) :
    ∃ J, o = .barred J ∧ J ≠ p.claimant.id ∧ s.holder? k = some J := by
  cases h with
  | refused _ hread _ hsound =>
    rw [hkey] at hsound
    exact absurd (hread.sound hkey hs) hsound
  | foreign _ hread hclaims hne _ =>
    rcases (hclaims.holder?_eq hkey hM).2 with hholder | ⟨-, heq⟩
    · exact ⟨_, rfl, hne, (hread.holder? k).symm.trans hholder⟩
    · exact absurd heq hne

/-- Of sound records, an instance comes to its continuation as the holder of the window, or has not
asked for it. -/
theorem Enters.holder? {held : Bool} {job : Job} (h : p.Enters s held notes job s')
    (hkey : p.claimant.key = k) (hM : M p.measure) (hs : Sound k s.clock s.store.entries) :
    (held = true ∧ s'.holder? k = some p.claimant.id ∧ (s.holder? k = some p.claimant.id ∨
      s.store.entries.live? s.clock k.text = none)) ∨
    held = false ∧ s'.holder? k = s.holder? k ∧
      (p.claimant.runAt.isSome = true ∨ p.strategy = .untilExecuted) := by
  cases h with
  | bypass _ hrunAt _ h => exact .inr ⟨rfl, h.holder? k, .inl hrunAt⟩
  | unasked _ hstrategy hread => exact .inr ⟨rfl, hread.holder? k, .inr hstrategy⟩
  | unanswered _ _ hread _ hsound =>
    rw [hkey] at hsound
    exact absurd (hread.sound hkey hs) hsound
  | own _ hread hclaims =>
    obtain ⟨hafter, hbefore⟩ := hclaims.holder?_eq hkey hM
    rw [hread.holder?, hread.live?] at hbefore
    exact .inl ⟨rfl, hafter, hbefore.imp id And.left⟩

/-- Under the strategy that holds the window until a job has run, an instance that is not put off
comes to its continuation as the holder. -/
theorem Enters.holder?_of_prompt {settings : Settings}
    {measure : String → String → String → Except LsnError Int64} {caller : Caller}
    {worker : Option Worker} {held : Bool} {job given : Job}
    (h : (ofJob settings .untilExecuting measure caller worker job).Enters s held notes given s')
    (hkey : (job.identify settings.keyspace).1 = k) (hrunAt : job.runAt = none)
    (hs : Sound k s.clock s.store.entries) :
    held = true ∧ s'.holder? k = some job.id ∧ (s.holder? k = some job.id ∨
      s.store.entries.live? s.clock k.text = none) := by
  rcases h.holder? (M := fun _ ↦ True) (key_ofJob.trans hkey) trivial hs with
    hown | ⟨-, -, hput | hcleared⟩
  · rwa [id_ofJob] at hown
  · rw [runAt_ofJob, hrunAt] at hput
    cases hput
  · cases hcleared

end Pass

end UniqueJobs
