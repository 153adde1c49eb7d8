import UniqueJobs.Proofs.Journal.Holder
import UniqueJobs.Proofs.Journal.Place

/-!
What comes of a check. Under the strategy that holds the window until a job has run, an instance
that is not put off checks the window once, and what it finds there decides whether it comes to its
continuation. Main statement: `Located.fate`.
-/

namespace UniqueJobs

open Entries

def Note.Checks (caller : Caller) (n : Note) : Prop :=
  ∃ requests failure before after, n = .called caller (.batch requests) failure before after ∧
    Passage.claims requests = true

theorem Note.Checks.caller? {caller : Caller} {n : Note} (h : n.Checks caller) :
    n.caller? = some caller := by
  obtain ⟨requests, failure, before, after, rfl, -⟩ := h
  rfl

theorem Note.Checks.isMark {caller : Caller} {n : Note} (h : n.Checks caller) :
    n.isMark = false := by
  obtain ⟨requests, failure, before, after, rfl, -⟩ := h
  rfl

theorem Contact.checks_claim (caller : Caller) (c : Claimant) (window : Duration) (s : Site) :
    ((Contact.claim window).note caller c s).Checks caller :=
  ⟨_, _, _, _, rfl, rfl⟩

theorem Contact.claim_of_checks {caller other : Caller} {c : Claimant} {contact : Contact}
    {s : Site} (h : (contact.note caller c s).Checks other) :
    ∃ window, contact = .claim window := by
  obtain ⟨requests, failure, before, after, heq, hclaims⟩ := h
  cases contact with
  | claim window => exact ⟨window, rfl⟩
  | readLatest =>
    cases heq
    have hreads := Passage.Idles.claims_items c.key c.locations.keys
    cases hclaims.symm.trans hreads
  | advance | setFlag | readFlag | release => cases heq

theorem Calls.not_checks {caller other : Caller} {c : Claimant} {contacts : List Contact}
    {s s' : Site} {notes : List Note} (h : Calls caller c contacts s notes s')
    (hcontacts : ∀ window, .claim window ∉ contacts) : ∀ n ∈ notes, ¬ n.Checks other := by
  intro n hn hcheck
  obtain ⟨contact, hcontact, s₁, rfl⟩ := h.exists_contact n hn
  obtain ⟨window, rfl⟩ := Contact.claim_of_checks hcheck
  exact hcontacts window hcontact

/-- An instance checks the window, and finds there what is live at a site. -/
structure ChecksAt (k : JobKey) (caller : Caller) (s : Site) (notes : List Note) : Prop where
  exists_check : ∃ n ∈ notes, n.Checks caller
  live?_eq : ∀ n ∈ notes, n.Checks caller →
    n.before.store.entries.live? n.before.clock k.text = s.store.entries.live? s.clock k.text

theorem ChecksAt.holder? {k : JobKey} {caller : Caller} {s : Site} {notes : List Note}
    (h : ChecksAt k caller s notes) {n : Note} (hn : n ∈ notes) (hcheck : n.Checks caller) :
    n.before.holder? k = s.holder? k := by
  rw [Site.holder?, Site.holder?, text?, text?, h.live?_eq n hn hcheck]

theorem ChecksAt.append {k : JobKey} {caller : Caller} {s : Site} {notes more : List Note}
    (h : ChecksAt k caller s notes) (hmore : ∀ n ∈ more, ¬ n.Checks caller) :
    ChecksAt k caller s (notes ++ more) where
  exists_check := by
    obtain ⟨n, hn, hcheck⟩ := h.exists_check
    exact ⟨n, List.mem_append_left more hn, hcheck⟩
  live?_eq n hn hcheck := by
    rcases List.mem_append.mp hn with hn | hn
    · exact h.live?_eq n hn hcheck
    · exact absurd hcheck (hmore n hn)

theorem ChecksAt.prepend {k : JobKey} {caller : Caller} {s : Site} {notes more : List Note}
    (h : ChecksAt k caller s notes) (hmore : ∀ n ∈ more, ¬ n.Checks caller) :
    ChecksAt k caller s (more ++ notes) where
  exists_check := by
    obtain ⟨n, hn, hcheck⟩ := h.exists_check
    exact ⟨n, List.mem_append_right more hn, hcheck⟩
  live?_eq n hn hcheck := by
    rcases List.mem_append.mp hn with hn | hn
    · exact absurd hcheck (hmore n hn)
    · exact h.live?_eq n hn hcheck

theorem ChecksAt.of_live? {k : JobKey} {caller : Caller} {s s' : Site} {notes : List Note}
    (h : ChecksAt k caller s' notes)
    (hlive : s'.store.entries.live? s'.clock k.text = s.store.entries.live? s.clock k.text) :
    ChecksAt k caller s notes :=
  ⟨h.exists_check, fun n hn hcheck ↦ (h.live?_eq n hn hcheck).trans hlive⟩

namespace Pass

variable {k : JobKey} {p : Pass} {s s' : Site} {notes : List Note}

theorem checksAt_claim {window : Duration}
    (h : Calls p.caller p.claimant [.claim window] s notes s') : ChecksAt k p.caller s notes := by
  cases h with
  | @call _ _ _ s₁ _ _ hquiet hrest =>
    cases hrest
    refine ⟨⟨_, List.mem_singleton.mpr rfl, Contact.checks_claim _ _ _ _⟩, ?_⟩
    intro n hn _
    rw [List.mem_singleton.mp hn]
    change s₁.store.entries.live? s₁.clock k.text = _
    rw [hquiet.store, hquiet.clock]

theorem Claims.checksAt {winner : JobId} (h : p.Claims winner s notes s') :
    ChecksAt k p.caller s notes := by
  cases h with
  | intro hclaim _ _ hcalls hoffers =>
    apply (checksAt_claim hclaim).append
    apply hcalls.not_checks
    intro window hclaims
    obtain ⟨config, location, offset, heq, -⟩ := hoffers _ hclaims
    cases heq

theorem Reads.not_checks {job : Job} (h : p.Reads s notes job s') (other : Caller) :
    ∀ n ∈ notes, ¬ n.Checks other := by
  cases h with
  | schedule => simp
  | perform _ h =>
    cases h with
    | nothing => simp
    | failed _ h => exact h.not_checks (by simp)
    | answered _ _ h => exact h.not_checks (by simp)

theorem Enters.checksAt {job : Job} (h : p.Enters s true notes job s') :
    ChecksAt k p.caller s notes := by
  cases h with
  | own _ hread hclaims =>
    exact (hclaims.checksAt.of_live? (hread.live? k.text)).prepend (hread.not_checks _)

theorem Barred.checksAt {o : Outcome} (h : p.Barred s o notes s') :
    ChecksAt k p.caller s notes := by
  cases h with
  | refused _ hread hclaim =>
    exact ((checksAt_claim hclaim).of_live? (hread.live? k.text)).prepend (hread.not_checks _)
  | foreign _ hread hclaims _ hflag =>
    refine ((hclaims.checksAt.of_live? (hread.live? k.text)).prepend (hread.not_checks _)).append ?_
    apply hflag.not_checks
    intro window hclaim
    cases eq_setFlag_of_mem hclaim

theorem Leaves.not_checks {held : Bool} {result : Except String Unit}
    (h : p.Leaves s held result notes s') (other : Caller) : ∀ n ∈ notes, ¬ n.Checks other := by
  intro n hn hcheck
  obtain ⟨contact, s₁, rfl, hcontact⟩ := h.exists_contact n hn
  obtain ⟨window, rfl⟩ := Contact.claim_of_checks hcheck
  simp at hcontact

end Pass

/-- What comes of the check of an instance, which is not put off, under the strategy that holds the
window until a job has run. -/
inductive Fate (k : JobKey) (caller : Caller) (log : List Note) : Prop
  | barred {J : JobId} {s s' : Site} (hne : J ≠ caller.id) (hholder : s.holder? k = some J)
      (hchecks : ChecksAt k caller s log) (hmem : (Outcome.barred J).note caller s' ∈ log)
      (hmarks : ∀ n ∈ log, n.caller? = some caller → n.isMark = true →
        n = (Outcome.barred J).note caller s')
  | through {job : Job} {s s' : Site} (hholder : s.holder? k = some caller.id ∨
        s.store.entries.live? s.clock k.text = none)
      (hchecks : ChecksAt k caller s log) (hmem : .handed caller job s' ∈ log)

theorem Caller.Apart.not_checks {caller : Caller} {notes : List Note} (h : caller.Apart notes) :
    ∀ n ∈ notes, ¬ n.Checks caller :=
  fun n hn hcheck ↦ (h n hn caller hcheck.caller?).1 rfl

theorem not_checks_of_isMark {caller : Caller} {n : Note} (h : n.isMark = true) :
    ¬ n.Checks caller := by
  intro hcheck
  cases h.symm.trans hcheck.isMark

/-- Is every instance one of a job that is not put off? -/
def Traffic.Prompt (settings : Settings) (worker : String) (k : JobKey) (t : Traffic) : Prop :=
  t.Passes fun _ job _ ↦ job.worker = worker ∧ (job.identify settings.keyspace).1 = k ∧
    job.runAt = Option.none

theorem Located.fate {settings : Settings} {worker : String} {k : JobKey} {caller : Caller}
    {s : Site} {log : List Note}
    (h : Located settings .untilExecuting k (fun _ ↦ True) (fun _ job _ ↦ job.worker = worker ∧
      (job.identify settings.keyspace).1 = k ∧ job.runAt = none) caller s log)
    (hs : Sound k s.clock s.store.entries) : Fate k caller log := by
  cases h with
  | @intro job measure inside finish o first own last s₁ s₂ hP hid hinside hfirst hgoes hbefore
      hafter =>
    obtain ⟨-, hkey, hrunAt⟩ := hP
    have hs₁ := hfirst.sound hs
    -- The check is among the instance's own notes.
    have hall (hown : ChecksAt k caller s₁ own) :
        ChecksAt k caller s₁ (first ++ (own ++ o.note caller s₂ :: last)) := by
      refine (hown.append (List.forall_mem_cons.mpr ⟨?_, hafter.not_checks⟩)).prepend
        hbefore.not_checks
      exact not_checks_of_isMark (o.isMark_note caller s₂)
    cases hgoes with
    | barred hbarred =>
      obtain ⟨J, rfl, hne, hholder⟩ :=
        hbarred.exists_holder (M := fun _ ↦ True) (Pass.key_ofJob.trans hkey) trivial hs₁
      rw [Pass.id_ofJob, hid] at hne
      have hmem : (Outcome.barred J).note caller s₂ ∈
          first ++ (own ++ (Outcome.barred J).note caller s₂ :: last) := by
        simp
      refine .barred hne hholder (hall hbarred.checksAt) hmem ?_
      intro n hn hcaller hmark
      rcases Caller.mem_own hbefore hafter hn hcaller with hn | rfl
      · have htouch := (hbarred.chain (M := fun _ ↦ True) (Pass.key_ofJob.trans hkey)
          trivial).forall_mem n hn
        cases htouch
        cases hmark
      · rfl
    | @through held result given given' before within after s₃ s₄ _ henters hnext hleaves =>
      obtain ⟨-, within, hwithin, rfl⟩ := hnext
      obtain ⟨rfl, -, hholder⟩ := henters.holder?_of_prompt hkey hrunAt hs₁
      rw [hid] at hholder
      have hmem : .handed caller given s₃ ∈ first ++ (before ++ (.handed caller given s₃ ::
          within ++ [.finished caller (finish given).1 s₄]) ++ after ++
            (Outcome.ended result).note caller s₂ :: last) := by
        simp
      refine .through hholder (hall ?_) hmem
      refine (henters.checksAt.append ?_).append (hleaves.not_checks caller)
      have hplaces := hwithin.places (hinside.imp fun _ _ _ h ↦ h.2.1)
      intro n hn hcheck
      simp only [List.cons_append, List.mem_cons, List.mem_append, List.not_mem_nil, or_false] at hn
      rcases hn with rfl | hn | rfl
      · cases hcheck.isMark
      · exact not_cons_suffix_self true _ (hplaces n hn caller hcheck.caller?)
      · cases hcheck.isMark

theorem Happens.fate {settings : Settings} {worker : String} {k : JobKey} {caller : Caller}
    {t : Traffic} {place : List Bool} {s s' : Site} {log : List Note} {n : Note}
    (h : Happens settings .untilExecuting t place s log s') (ht : t.Prompt settings worker k)
    (hs : Sound k s.clock s.store.entries) (hn : n ∈ log) (hcaller : n.caller? = some caller) :
    Fate k caller log :=
  (h.locate ht (fun _ _ _ h ↦ ⟨h.2.1, trivial⟩) hn hcaller).fate hs

namespace Fate

variable {k : JobKey} {caller : Caller} {log : List Note} {n : Note} {J : JobId}

theorem exists_check (h : Fate k caller log) : ∃ n ∈ log, n.Checks caller := by
  cases h with
  | barred _ _ hchecks => exact hchecks.exists_check
  | through _ hchecks => exact hchecks.exists_check

/-- An instance comes to its continuation if there is no record at its check, or it is its own. -/
theorem handed_iff (h : Fate k caller log) (hn : n ∈ log) (hcheck : n.Checks caller) :
    (∃ job s, .handed caller job s ∈ log) ↔
      n.before.store.entries.live? n.before.clock k.text = none ∨
        n.before.holder? k = some caller.id := by
  cases h with
  | @barred J s s' hne hholder hchecks hmem hmarks =>
    rw [hchecks.holder? hn hcheck, hchecks.live?_eq n hn hcheck]
    constructor
    · rintro ⟨job, s₁, hhanded⟩
      have heq := hmarks _ hhanded rfl rfl
      rw [Outcome.note] at heq
      cases hstage : caller.stage with
      | schedule | perform =>
        rw [hstage] at heq
        cases heq
    · rintro (hnone | hown)
      · cases hholder.symm.trans (Site.holder?_of_live?_eq_none hnone)
      · exact absurd (Option.some.inj (hholder.symm.trans hown)) hne
  | through hholder hchecks hmem =>
    rw [hchecks.holder? hn hcheck, hchecks.live?_eq n hn hcheck]
    exact iff_of_true ⟨_, _, hmem⟩ hholder.symm

/-- An instance that finds the window another one's is turned away, with the name of that one. -/
theorem turned_away (h : Fate k caller log) (hn : n ∈ log) (hcheck : n.Checks caller)
    (hholder : n.before.holder? k = some J) (hne : caller.id ≠ J) :
    ∃ s, (Outcome.barred J).note caller s ∈ log ∧ ∀ m ∈ log, m.caller? = some caller →
      m.isMark = true → m = (Outcome.barred J).note caller s := by
  cases h with
  | @barred J' s s' _ hholder' hchecks hmem hmarks =>
    rw [hchecks.holder? hn hcheck, hholder'] at hholder
    obtain rfl := Option.some.inj hholder
    exact ⟨s', hmem, hmarks⟩
  | through hholder' hchecks =>
    rw [hchecks.holder? hn hcheck] at hholder
    rcases hholder' with hown | hnone
    · exact absurd (Option.some.inj (hown.symm.trans hholder)) hne
    · cases hholder.symm.trans (Site.holder?_of_live?_eq_none hnone)

theorem performed_eq (h : Fate k caller log) (hn : n ∈ log) (hcheck : n.Checks caller)
    (hholder : n.before.holder? k = some J) (hne : caller.id ≠ J)
    {result : Except (Failure String) (Performed Unit)} {s : Site}
    (hmem : .performed caller result s ∈ log) : result = .ok (.skipped J) := by
  obtain ⟨s', -, hmarks⟩ := h.turned_away hn hcheck hholder hne
  have heq := hmarks _ hmem rfl rfl
  rw [Outcome.note] at heq
  cases hstage : caller.stage with
  | schedule | perform =>
    rw [hstage] at heq
    cases heq <;> rfl

theorem scheduled_eq (h : Fate k caller log) (hn : n ∈ log) (hcheck : n.Checks caller)
    (hholder : n.before.holder? k = some J) (hne : caller.id ≠ J)
    {result : Except (Failure String) (Scheduled Unit)} {s : Site}
    (hmem : .scheduled caller result s ∈ log) : result = .ok (.dropped J) := by
  obtain ⟨s', -, hmarks⟩ := h.turned_away hn hcheck hholder hne
  have heq := hmarks _ hmem rfl rfl
  rw [Outcome.note] at heq
  cases hstage : caller.stage with
  | schedule | perform =>
    rw [hstage] at heq
    cases heq <;> rfl

end Fate

end UniqueJobs
