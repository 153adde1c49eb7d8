import UniqueJobs.Proofs.Claimant.Contact
import UniqueJobs.Site

/-!
Calls of the store at a site. `Site.call` is what every call comes to: it is refused with no effect
on the entries, or carried out on them. `Serves` says of a store that its calls are those of the
site, each of them noted; `Does` says of an act that it comes to an end, by way of which calls and
with which outcome.
-/

namespace UniqueJobs.Site

/-- Does no cue invent an answer? Calls may then fail on cue, but none is answered untruly. -/
def Honest (s : Site) : Prop := ∀ q ∈ s.cues, ∀ replies, q.2 ≠ .answer replies

theorem Honest.of_cues_eq_nil {s : Site} (h : s.cues = []) : s.Honest := by
  intro q hq
  rw [h] at hq
  cases hq

theorem mem_of_mem_pop (kind : CallKind) (cues : Cues) :
    ∀ q ∈ (cues.pop kind).2, q ∈ cues := by
  induction cues with
  | nil => exact fun _ h ↦ h
  | cons head rest ih =>
    obtain ⟨k, cue⟩ := head
    intro q hq
    rw [Cues.pop] at hq
    by_cases hk : k = kind
    · rw [if_pos hk] at hq
      exact List.mem_cons_of_mem _ hq
    · rw [if_neg hk] at hq
      rcases List.mem_cons.mp hq with rfl | hq
      · exact List.mem_cons_self
      · exact List.mem_cons_of_mem _ (ih q hq)

theorem pop_fst_ne_answer {cues : Cues} (h : ∀ q ∈ cues, ∀ replies, q.2 ≠ .answer replies)
    (kind : CallKind) (replies : List Reply) : (cues.pop kind).1 ≠ .answer replies := by
  induction cues with
  | nil => simp [Cues.pop]
  | cons head rest ih =>
    obtain ⟨k, cue⟩ := head
    rw [Cues.pop]
    by_cases hk : k = kind
    · rw [if_pos hk]
      exact h (k, cue) List.mem_cons_self replies
    · rw [if_neg hk]
      exact ih fun q hq ↦ h q (List.mem_cons_of_mem _ hq)

theorem Honest.push {s : Site} (kind : CallKind) (skip : Nat) (e : StoreError) (hs : s.Honest) :
    Honest { s with cues := s.cues.push kind skip (.fail e) } := by
  intro q hq replies
  simp only [Cues.push, List.mem_append, List.mem_replicate, List.mem_singleton] at hq
  rcases hq with (hq | ⟨-, rfl⟩) | rfl
  · exact hs q hq replies
  · simp
  · simp

/-- Why a call is refused, if it is: it fails on cue, or the store is switched off. -/
def refusal? (kind : CallKind) (s : Site) : Option StoreError :=
  match (s.cues.pop kind).1 with
  | .fail e => some e
  | _ => if s.store.available then none else some (.unavailable .switchedOff)

/-- A call that is refused, or else carried out on the entries. -/
def call {α : Type} (kind : CallKind) (f : Entries → Except StoreError α × Entries) (s : Site) :
    Except StoreError α × Site :=
  match s.refusal? kind with
  | some e => (.error e, { s with cues := (s.cues.pop kind).2 })
  | none =>
    ((f s.store.entries).1,
      { s with
        cues := (s.cues.pop kind).2
        store := { s.store with entries := (f s.store.entries).2 } })

def emitted (e : Event) (s : Site) : Site :=
  { s with counters := s.counters.record e, log := s.log ++ [e] }

theorem run_emit {m : Type → Type} [Monad m] (e : Event) (s : Site) :
    (emit (m := m) e).run s = pure ((), s.emitted e) := rfl

variable {m : Type → Type} [Monad m] [LawfulMonad m]

theorem run_cued {α : Type} (kind : CallKind)
    (f : Instant → Entries → Except StoreError α × Entries) (s : Site) :
    StateT.run (m := m) (do
      match ← nextCue kind with
      | .fail e => pure (.error e)
      | _ => do
        let t ← reading
        onStore (LocalStore.call (f t))) s = pure (s.call kind (f s.clock)) := by
  rw [call, refusal?]
  rcases h : s.cues.pop kind with ⟨cue, cues⟩
  cases cue <;> cases ha : s.store.available <;>
    simp [nextCue, reading, onStore, LocalStore.call, h, ha]

theorem run_recordStore_run (p : Procedure) (keys args : List String) (s : Site) :
    ((recordStore (m := m)).run p keys args).run s =
      pure (s.call .run (Entries.runProcedure s.clock p keys args)) :=
  run_cued .run (fun t ↦ Entries.runProcedure t p keys args) s

theorem run_recordStore_get (name : String) (s : Site) :
    ((recordStore (m := m)).get name).run s =
      pure (s.call .get (Entries.getText s.clock name)) :=
  run_cued .get (fun t ↦ Entries.getText t name) s

theorem run_recordStore_setIfAbsent (name value : String) (ttl : Duration) (s : Site) :
    ((recordStore (m := m)).setIfAbsent name value ttl).run s =
      pure (s.call .setIfAbsent fun es ↦
        let (written, es) := Entries.setIfAbsent s.clock name value ttl es
        (.ok written, es)) :=
  run_cued .setIfAbsent (fun t es ↦
    let (written, es) := Entries.setIfAbsent t name value ttl es
    (.ok written, es)) s

theorem run_recordStore_batch (requests : List Request) {s : Site} (hs : s.Honest) :
    ((recordStore (m := m)).batch requests).run s =
      pure (s.call .batch (Entries.carryOutAll s.clock requests)) := by
  -- A batch may be answered on cue, but not at an honest site.
  have hne := pop_fst_ne_answer hs .batch
  rw [call, refusal?]
  rcases h : s.cues.pop .batch with ⟨cue, cues⟩
  rw [h] at hne
  cases cue with
  | answer replies => exact absurd rfl (hne replies)
  | pass | fail =>
    cases ha : s.store.available <;>
      simp [recordStore, RecordStore.cued, LocalStore.toRecordStore, nextCue, reading, onStore,
        LocalStore.call, h, ha]

variable {α β : Type} {note : Site → Site → m Unit}

def noted (note : Site → Site → m Unit) (s : Site) (r : α × Site) : m (α × Site) := do
  note s r.2
  pure r

/-- The calls of the store are those of the site, each of them noted. -/
structure Serves (note : Site → Site → m Unit) (store : RecordStore (StateT Site m)) : Prop where
  run : ∀ p keys args s, (store.run p keys args).run s =
    noted note s (s.call .run (Entries.runProcedure s.clock p keys args))
  get : ∀ name s, (store.get name).run s =
    noted note s (s.call .get (Entries.getText s.clock name))
  setIfAbsent : ∀ name value ttl s, (store.setIfAbsent name value ttl).run s =
    noted note s (s.call .setIfAbsent fun es ↦
      let (written, es) := Entries.setIfAbsent s.clock name value ttl es
      (.ok written, es))
  batch : ∀ requests s, s.Honest → (store.batch requests).run s =
    noted note s (s.call .batch (Entries.carryOutAll s.clock requests))

theorem serves_recordStore : Serves (fun _ _ ↦ pure ()) (recordStore (m := m)) where
  run p keys args s := by simp [noted, run_recordStore_run]
  get name s := by simp [noted, run_recordStore_get]
  setIfAbsent name value ttl s := by simp [noted, run_recordStore_setIfAbsent]
  batch requests s hs := by simp [noted, run_recordStore_batch requests hs]

def noteAll (note : Site → Site → m Unit) : List (Site × Site) → m Unit
  | [] => pure ()
  | p :: rest => do
    note p.1 p.2
    noteAll note rest

theorem noteAll_append (first second : List (Site × Site)) :
    noteAll note (first ++ second) = (do noteAll note first; noteAll note second) := by
  induction first with
  | nil => simp [noteAll]
  | cons p rest ih => simp [noteAll, ih]

/-- An act comes to an end, and what holds of its outcome, its calls and the site afterwards. -/
def Does (note : Site → Site → m Unit) (x : StateT Site m α) (s : Site)
    (P : α → List (Site × Site) → Site → Prop) : Prop :=
  ∃ a calls s', x.run s = (do noteAll note calls; pure (a, s')) ∧ P a calls s'

namespace Does

variable {x : StateT Site m α} {s : Site} {P Q : α → List (Site × Site) → Site → Prop}

omit [LawfulMonad m] in
theorem imp (h : Does note x s P) (hPQ : ∀ a calls s', P a calls s' → Q a calls s') :
    Does note x s Q := by
  obtain ⟨a, calls, s', hx, hP⟩ := h
  exact ⟨a, calls, s', hx, hPQ a calls s' hP⟩

theorem pure {a : α} (h : P a [] s) : Does note (pure a) s P :=
  ⟨a, [], s, by simp [noteAll], h⟩

theorem bind {f : α → StateT Site m β} {R : β → List (Site × Site) → Site → Prop}
    (h : Does note x s P) (hf : ∀ a calls s', P a calls s' →
      Does note (f a) s' fun b more s'' ↦ R b (calls ++ more) s'') :
    Does note (x >>= f) s R := by
  obtain ⟨a, calls, s', hx, hP⟩ := h
  obtain ⟨b, more, s'', hfa, hR⟩ := hf a calls s' hP
  exact ⟨b, calls ++ more, s'', by simp [hx, hfa, noteAll_append], hR⟩

theorem map {f : α → β} {R : β → List (Site × Site) → Site → Prop} (h : Does note x s P)
    (hR : ∀ a calls s', P a calls s' → R (f a) calls s') :
    Does note (do let a ← x; Pure.pure (f a)) s R := by
  apply h.bind
  intro a calls s' hP
  apply pure
  rw [List.append_nil]
  exact hR a calls s' hP

theorem bind_call {f : α → StateT Site m β} {R : β → List (Site × Site) → Site → Prop}
    {r : α × Site} (hx : x.run s = noted note s r)
    (hf : Does note (f r.1) r.2 fun b more s'' ↦ R b ((s, r.2) :: more) s'') :
    Does note (x >>= f) s R := by
  have hcall : Does note x s fun a calls s' ↦ a = r.1 ∧ calls = [(s, r.2)] ∧ s' = r.2 :=
    ⟨r.1, [(s, r.2)], r.2, by simp [hx, noted, noteAll], rfl, rfl, rfl⟩
  apply hcall.bind
  intro a calls s' h
  obtain ⟨rfl, rfl, rfl⟩ := h
  exact hf

theorem of_run_eq_pure (a : α) (s' : Site) (hx : x.run s = Pure.pure (a, s')) (h : P a [] s') :
    Does note x s P :=
  ⟨a, [], s', by simp [hx, noteAll], h⟩

end Does

end UniqueJobs.Site
