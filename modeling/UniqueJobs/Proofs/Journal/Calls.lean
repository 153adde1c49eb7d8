import UniqueJobs.Proofs.Claimant.Latest
import UniqueJobs.Proofs.Journal.Basic
import UniqueJobs.Proofs.Site.Course
import UniqueJobs.Proofs.Traffic.Trace

/-!
The contacts of a claimant as they stand in the journal. At a calm site no call is refused, so a
contact leaves a site that is known (`Site.met`), and a row of contacts is a row of notes (`Calls`).
-/

namespace UniqueJobs

open Entries

namespace Site

/-- The store is on and no call is going to be refused. -/
structure Calm (s : Site) : Prop where
  available : s.store.available = true
  cues : s.cues = []

/-- Nothing that a call could depend on changes. -/
structure Still (s s' : Site) : Prop where
  store : s'.store = s.store
  cues : s'.cues = s.cues
  wall : s'.wall = s.wall
  clock : s'.clock = s.clock
  workers : s'.workers = s.workers
  off : s'.off = s.off

namespace Still

variable {s s' s'' : Site}

theorem refl (s : Site) : Still s s := ⟨rfl, rfl, rfl, rfl, rfl, rfl⟩

theorem symm (h : Still s s') : Still s' s :=
  ⟨h.store.symm, h.cues.symm, h.wall.symm, h.clock.symm, h.workers.symm, h.off.symm⟩

theorem trans (h : Still s s') (h' : Still s' s'') : Still s s'' where
  store := h'.store.trans h.store
  cues := h'.cues.trans h.cues
  wall := h'.wall.trans h.wall
  clock := h'.clock.trans h.clock
  workers := h'.workers.trans h.workers
  off := h'.off.trans h.off

end Still

/-- Nothing changes but what is counted and logged. -/
structure Quiet (s s' : Site) : Prop extends Still s s' where
  rescheduled : s'.rescheduled = s.rescheduled
  ids : s'.ids = s.ids

namespace Quiet

variable {s s' s'' : Site}

theorem refl (s : Site) : Quiet s s := ⟨.refl s, rfl, rfl⟩

theorem trans (h : Quiet s s') (h' : Quiet s' s'') : Quiet s s'' where
  toStill := h.toStill.trans h'.toStill
  rescheduled := h'.rescheduled.trans h.rescheduled
  ids := h'.ids.trans h.ids

end Quiet

def keeping (s : Site) (es : Entries) : Site := { s with store.entries := es }

/-- The id that the next new instance gets. -/
def nextId (s : Site) : JobId := (s.ids.next (s.wall / 1_000_000)).1

/-- The instance that a job runs again as. -/
def respawned (s : Site) (job : Job) : Job := job.respawn s.nextId

def met (s : Site) (c : Claimant) (contact : Contact) : Site :=
  s.keeping (contact.effect c s.clock s.store.entries)

theorem Calm.refusal? {s : Site} (h : s.Calm) (kind : CallKind) : s.refusal? kind = none := by
  simp [Site.refusal?, h.cues, Cues.pop, h.available]

theorem Calm.call {s : Site} (h : s.Calm) {α : Type} (kind : CallKind)
    (f : Entries → Except StoreError α × Entries) :
    s.call kind f = ((f s.store.entries).1, s.keeping (f s.store.entries).2) := by
  have hcues : (s.cues.pop kind).2 = s.cues := by
    rw [h.cues]
    rfl
  simp only [Site.call, h.refusal? kind, hcues, keeping]

theorem Calm.honest {s : Site} (h : s.Calm) : s.Honest := .of_cues_eq_nil h.cues

end Site

/-- The site is the same but for its entries, and for what no call depends on. -/
structure Site.Like (s s' : Site) : Prop where
  available : s'.store.available = s.store.available
  cues : s'.cues = s.cues
  wall : s'.wall = s.wall
  clock : s'.clock = s.clock
  workers : s'.workers = s.workers
  off : s'.off = s.off

namespace Site

variable {s s' s'' : Site}

theorem Like.refl (s : Site) : Like s s := ⟨rfl, rfl, rfl, rfl, rfl, rfl⟩

theorem Like.trans (h : Like s s') (h' : Like s' s'') : Like s s'' where
  available := h'.available.trans h.available
  cues := h'.cues.trans h.cues
  wall := h'.wall.trans h.wall
  clock := h'.clock.trans h.clock
  workers := h'.workers.trans h.workers
  off := h'.off.trans h.off

theorem Like.calm (h : Like s s') (hs : s.Calm) : s'.Calm where
  available := h.available.trans hs.available
  cues := h.cues.trans hs.cues

theorem Like.strategyFor (h : Like s s') (worker : String) :
    s'.strategyFor worker = s.strategyFor worker := by
  rw [Site.strategyFor, Site.strategyFor, h.workers, h.off]

theorem Like.date? (h : Like s s') : s'.date? = s.date? := by
  rw [Site.date?, Site.date?, h.wall]

theorem Still.like (h : Still s s') : Like s s' :=
  ⟨congrArg _ h.store, h.cues, h.wall, h.clock, h.workers, h.off⟩

theorem like_met (s : Site) (c : Claimant) (contact : Contact) : s.Like (s.met c contact) :=
  ⟨rfl, rfl, rfl, rfl, rfl, rfl⟩

end Site

namespace Contact

def call (c : Claimant) : Contact → StoreCall
  | claim window => .batch (c.claimRequests window)
  | advance config location offset =>
    .run .advance [c.key.latest config, c.key.configs]
      [location, toString offset.toInt, toString c.settings.latestTtl.millis, config]
  | readLatest => .batch c.latestReads
  | setFlag ttl => .setIfAbsent c.key.flag "1" ttl
  | readFlag => .get c.key.flag
  | release => .run .release [c.key.text, c.key.flag, c.key.configs] c.locations.keys

def failure? (c : Claimant) (now : Instant) (es : Entries) : Contact → Option StoreError
  | claim window => Journal.failureOf (carryOutAll now (c.claimRequests window) es).1
  | advance config location offset =>
    Journal.failureOf (runProcedure now .advance [c.key.latest config, c.key.configs]
      [location, toString offset.toInt, toString c.settings.latestTtl.millis, config] es).1
  | readLatest => Journal.failureOf (carryOutAll now c.latestReads es).1
  | setFlag _ => none
  | readFlag => Journal.failureOf (getText now c.key.flag es).1
  | release => Journal.failureOf (runProcedure now .release
      [c.key.text, c.key.flag, c.key.configs] c.locations.keys es).1

def note (caller : Caller) (c : Claimant) (contact : Contact) (s : Site) : Note :=
  .called caller (contact.call c) (contact.failure? c s.clock s.store.entries) s (s.met c contact)

end Contact

/-- The contacts of a claimant as they stand in the journal, with nothing between them. -/
inductive Calls (caller : Caller) (c : Claimant) : List Contact → Site → List Note → Site → Prop
  | rest {s s' : Site} (h : s.Quiet s') : Calls caller c [] s [] s'
  | call {contact : Contact} {contacts : List Contact} {s s₁ s' : Site} {notes : List Note}
      (h : s.Quiet s₁) (hrest : Calls caller c contacts (s₁.met c contact) notes s') :
      Calls caller c (contact :: contacts) s (contact.note caller c s₁ :: notes) s'

namespace Calls

variable {caller : Caller} {c : Claimant} {contacts others : List Contact} {s s' s'' : Site}
  {notes more : List Note}

theorem of_quiet (h : s.Quiet s') (h' : Calls caller c contacts s' notes s'') :
    Calls caller c contacts s notes s'' := by
  cases h' with
  | rest hs => exact .rest (h.trans hs)
  | call hs hrest => exact .call (h.trans hs) hrest

theorem append (h : Calls caller c contacts s notes s')
    (h' : Calls caller c others s' more s'') :
    Calls caller c (contacts ++ others) s (notes ++ more) s'' := by
  induction h with
  | rest hs => exact h'.of_quiet hs
  | call hs _ ih => exact .call hs (ih h')

theorem exists_between (h : Calls caller c (contacts ++ others) s notes s'') :
    ∃ s' first last, notes = first ++ last ∧ Calls caller c contacts s first s' ∧
      Calls caller c others s' last s'' := by
  induction contacts generalizing s notes with
  | nil => exact ⟨s, [], notes, rfl, .rest (.refl s), h⟩
  | cons contact contacts ih =>
    cases h with
    | call hs hrest =>
      obtain ⟨s', first, last, rfl, hfirst, hlast⟩ := ih hrest
      exact ⟨s', _ :: first, last, rfl, .call hs hfirst, hlast⟩

theorem quiet (h : Calls caller c contacts s notes s') (hs : s'.Quiet s'') :
    Calls caller c contacts s notes s'' := by
  have h' := h.append (.rest hs)
  rwa [List.append_nil, List.append_nil] at h'

/-- What a claimant has been told since makes no difference to its contacts. -/
theorem of_told {winner : Option JobId} {baselines : Dictionary String}
    {latest : Option (Dictionary String)}
    (h : Calls caller { c with winner, baselines, latest } contacts s notes s') :
    Calls caller c contacts s notes s' := by
  induction h with
  | rest hs => exact .rest hs
  | @call contact contacts s s₁ s' notes hs hrest ih =>
    have hmet : s₁.met { c with winner, baselines, latest } contact = s₁.met c contact := by
      cases contact <;> rfl
    have hnote : contact.note caller { c with winner, baselines, latest } s₁ =
        contact.note caller c s₁ := by
      cases contact <;> rfl
    rw [hmet] at ih
    rw [hnote]
    exact .call hs ih

theorem one (contact : Contact) (s : Site) (h : (s.met c contact).Quiet s') :
    Calls caller c [contact] s [contact.note caller c s] s' := .call (.refl s) (.rest h)

/-- One contact leaves what is its effect, and it is made where the calls begin. -/
theorem entries_of_one {contact : Contact} (h : Calls caller c [contact] s notes s') :
    s'.store.entries = contact.effect c s.clock s.store.entries := by
  cases h with
  | call hs hrest =>
    cases hrest with
    | rest hs' => rw [hs'.store, ← hs.clock, ← congrArg LocalStore.entries hs.store]; rfl

theorem exists_contact (h : Calls caller c contacts s notes s') :
    ∀ n ∈ notes, ∃ contact ∈ contacts, ∃ s₁, n = contact.note caller c s₁ := by
  induction h with
  | rest => simp
  | @call contact contacts _ s₁ _ _ _ _ ih =>
    refine List.forall_mem_cons.mpr ⟨⟨contact, List.mem_cons_self, s₁, rfl⟩, ?_⟩
    intro n hn
    obtain ⟨other, hother, s₂, rfl⟩ := ih n hn
    exact ⟨other, List.mem_cons_of_mem _ hother, s₂, rfl⟩

theorem eq_of_mem {contact : Contact} (h : Calls caller c [contact] s notes s') {n : Note}
    (hn : n ∈ notes) : ∃ s₁, s.Quiet s₁ ∧ n = contact.note caller c s₁ := by
  cases h with
  | call hs hrest =>
    cases hrest
    exact ⟨_, hs, List.mem_singleton.mp hn⟩

theorem like (h : Calls caller c contacts s notes s') : s.Like s' := by
  induction h with
  | rest hs => exact hs.like
  | call hs _ ih => exact (hs.like.trans (Site.like_met _ _ _)).trans ih

theorem rescheduled (h : Calls caller c contacts s notes s') :
    s'.rescheduled = s.rescheduled := by
  induction h with
  | rest hs => exact hs.rescheduled
  | call hs _ ih => exact ih.trans hs.rescheduled

theorem nextId (h : Calls caller c contacts s notes s') : s'.nextId = s.nextId := by
  have hids : s'.ids = s.ids := by
    induction h with
    | rest hs => exact hs.ids
    | call hs _ ih => exact ih.trans hs.ids
  rw [Site.nextId, Site.nextId, hids, h.like.wall]

end Calls

/-- A duplicate that is dropped sets the flag if the job is to run again for it. -/
def Claimant.flagWrites (c : Claimant) (ttl : Duration) : List Contact :=
  if c.runsAgain then [.setFlag ttl] else []

def Claimant.flagReads (c : Claimant) : List Contact := if c.runsAgain then [.readFlag] else []

/-- Would the claimant find at a site that the job is to run again? -/
def Claimant.findsFlag (c : Claimant) (s : Site) : Bool :=
  c.runsAgain && (text? s.clock c.key.flag s.store.entries).isSome

theorem Claimant.eq_setFlag_of_mem {c : Claimant} {ttl : Duration} {contact : Contact}
    (h : contact ∈ c.flagWrites ttl) : contact = .setFlag ttl := by
  rw [flagWrites] at h
  split at h
  · exact List.mem_singleton.mp h
  · cases h

theorem Claimant.eq_readFlag_of_mem {c : Claimant} {contact : Contact}
    (h : contact ∈ c.flagReads) : contact = .readFlag := by
  rw [flagReads] at h
  split at h
  · exact List.mem_singleton.mp h
  · cases h

/-- An offer that a claimant may make by the baselines that it was told. -/
def Contact.Offers (c : Claimant) (measure : String → String → String → Except LsnError Int64)
    (contact : Contact) : Prop :=
  ∃ config location offset, contact = .advance config location offset ∧
    c.locations.get? config = some location ∧
    measure config location ((c.baselines.get? config).getD location) = .ok offset

/-- The furthest positions are read, and the job is told of them if there are any. -/
inductive Attaches (caller : Caller) (c : Claimant) (job : Job) (s : Site) :
    List Note → Job → Site → Prop
  | nothing {s' : Site} (hempty : c.locations.isEmpty = true) (h : s.Quiet s') :
      Attaches caller c job s [] job s'
  | failed {notes : List Note} {s' : Site}
      (hfailed : Contact.readLatest.failure? c s.clock s.store.entries ≠ none)
      (h : Calls caller c [.readLatest] s notes s') : Attaches caller c job s notes job s'
  | answered {notes : List Note} {s' : Site} (d : Dictionary String)
      (hget : ∀ config, d.get? config = if c.locations.contains config = true then
        furthest? s.clock (c.key.latest config) s.store.entries else none)
      (h : Calls caller c [.readLatest] s notes s') :
      Attaches caller c job s notes (if d.isEmpty then job else { job with latest := d }) s'

theorem Attaches.quiet {caller : Caller} {c : Claimant} {job job' : Job} {s s' s'' : Site}
    {notes : List Note} (h : Attaches caller c job s notes job' s') (hs : s'.Quiet s'') :
    Attaches caller c job s notes job' s'' := by
  cases h with
  | nothing hempty h => exact .nothing hempty (h.trans hs)
  | failed hfailed h => exact .failed hfailed (h.quiet hs)
  | answered d hget h => exact .answered d hget (h.quiet hs)

end UniqueJobs
