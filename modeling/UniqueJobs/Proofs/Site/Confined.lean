import UniqueJobs.Proofs.Site.Call
import UniqueJobs.Proofs.Store.Confined

/-!
A claimant at a site keeps to the records of its own key. `Confined` says of an act that sites which
agree on some of the names answer it alike and agree afterwards, and that nothing changes under other
names; the calls of a claimant are shown to be such acts one by one, by the rules for `pure`, `bind`,
an event and a call of the store.
-/

namespace UniqueJobs

/-- Is the config that a record tells of one of those? -/
def Record.Within (P : String → Prop) : Record → Prop
  | .baseline config | .latest config => P config
  | _ => True

/-- The names of records under a key, as far as they tell of those configs. -/
def JobKey.Owns (P : String → Prop) (k : JobKey) (name : String) : Prop :=
  ∃ r : Record, r.Within P ∧ r.name k = name

/-- Are the configs that a claimant carries locations of all among those? -/
def Claimant.Within (P : String → Prop) (c : Claimant) : Prop := ∀ config ∈ c.locations.keys, P config

namespace Site

variable {N P : String → Prop} {α β : Type}

/-- No call is to fail on cue, and sets hold no names but allowed ones. -/
structure Orderly (P : String → Prop) (s : Site) : Prop where
  quiet : s.cues = []
  holds : Entries.Holds P s.clock s.store.entries

/-- Two sites that no act can tell from each other which keeps to the names. -/
structure Agree (N : String → Prop) (s s' : Site) : Prop where
  clock : s.clock = s'.clock
  available : s.store.available = s'.store.available
  quiet : s.cues = []
  quiet' : s'.cues = []
  entries : Entries.Agree N s.clock s.store.entries s'.store.entries

/-- Nothing has changed but what is live under the names. -/
structure SameBut (N : String → Prop) (s s' : Site) : Prop where
  clock : s'.clock = s.clock
  available : s'.store.available = s.store.available
  entries : ∀ name, ¬ N name →
    s'.store.entries.live? s.clock name = s.store.entries.live? s.clock name

theorem SameBut.trans {s s' s'' : Site} (h : SameBut N s s') (h' : SameBut N s' s'') :
    SameBut N s s'' where
  clock := h'.clock.trans h.clock
  available := h'.available.trans h.available
  entries name hname := by
    have hlater := h'.entries name hname
    rw [h.clock] at hlater
    exact hlater.trans (h.entries name hname)

structure Confined (N P : String → Prop) (x : StateT Site Id α) : Prop where
  orderly : ∀ s, s.Orderly P → (Id.run (x.run s)).2.Orderly P
  frame : ∀ s, s.Orderly P → SameBut N s (Id.run (x.run s)).2
  answer : ∀ s s', Agree N s s' → (Id.run (x.run s)).1 = (Id.run (x.run s')).1
  agree : ∀ s s', Agree N s s' → Agree N (Id.run (x.run s)).2 (Id.run (x.run s')).2

theorem call_of_quiet {s : Site} (hs : s.cues = []) (kind : CallKind)
    (f : Entries → Except StoreError α × Entries) :
    s.call kind f =
      if s.store.available then
        ((f s.store.entries).1, { s with store.entries := (f s.store.entries).2 })
      else (.error (.unavailable .switchedOff), s) := by
  have hpop : s.cues.pop kind = (.pass, s.cues) := by rw [hs]; rfl
  cases ha : s.store.available <;> simp [call, refusal?, hpop, ha]

namespace Confined

theorem pure (a : α) : Confined N P (Pure.pure a : StateT Site Id α) where
  orderly _ hs := hs
  frame _ _ := ⟨rfl, rfl, fun _ _ ↦ rfl⟩
  answer _ _ _ := rfl
  agree _ _ hs := hs

theorem bind {x : StateT Site Id α} {f : α → StateT Site Id β} (hx : Confined N P x)
    (hf : ∀ a, Confined N P (f a)) : Confined N P (x >>= f) where
  orderly s hs := (hf _).orderly _ (hx.orderly s hs)
  frame s hs := (hx.frame s hs).trans ((hf _).frame _ (hx.orderly s hs))
  answer s s' hs := by
    have hrest := (hf (Id.run (x.run s)).1).answer _ _ (hx.agree s s' hs)
    rw [StateT.run_bind, StateT.run_bind, Id.run_bind, Id.run_bind, ← hx.answer s s' hs]
    exact hrest
  agree s s' hs := by
    have hrest := (hf (Id.run (x.run s)).1).agree _ _ (hx.agree s s' hs)
    rw [StateT.run_bind, StateT.run_bind, Id.run_bind, Id.run_bind, ← hx.answer s s' hs]
    exact hrest

theorem emit (e : Event) : Confined N P (Site.emit e : StateT Site Id Unit) where
  orderly _ hs := ⟨hs.quiet, hs.holds⟩
  frame _ _ := ⟨rfl, rfl, fun _ _ ↦ rfl⟩
  answer _ _ _ := rfl
  agree _ _ hs := ⟨hs.clock, hs.available, hs.quiet, hs.quiet', hs.entries⟩

theorem call {x : StateT Site Id (Except StoreError α)} (kind : CallKind)
    {f : Instant → Entries → Except StoreError α × Entries}
    (hx : ∀ s : Site, s.cues = [] → x.run s = Pure.pure (s.call kind (f s.clock)))
    (hf : ∀ now, Entries.Confined N P now (f now)) : Confined N P x := by
  have hrun : ∀ s : Site, s.cues = [] → Id.run (x.run s) =
      if s.store.available then
        ((f s.clock s.store.entries).1,
          { s with store.entries := (f s.clock s.store.entries).2 })
      else (.error (.unavailable .switchedOff), s) := by
    intro s hs
    rw [hx s hs, ← call_of_quiet hs]
    rfl
  constructor
  · intro s hs
    rw [hrun s hs.quiet]
    split
    · exact ⟨hs.quiet, (hf s.clock).holds _ hs.holds⟩
    · exact hs
  · intro s hs
    rw [hrun s hs.quiet]
    split
    · exact ⟨rfl, rfl, (hf s.clock).frame _ hs.holds⟩
    · exact ⟨rfl, rfl, fun _ _ ↦ rfl⟩
  · intro s s' hs
    rw [hrun s hs.quiet, hrun s' hs.quiet', ← hs.clock, ← hs.available]
    split
    · exact (hf s.clock).answer _ _ hs.entries
    · rfl
  · intro s s' hs
    rw [hrun s hs.quiet, hrun s' hs.quiet', ← hs.available]
    split
    · refine ⟨hs.clock, hs.available, hs.quiet, hs.quiet', ?_⟩
      rw [← hs.clock]
      exact (hf s.clock).agree _ _ hs.entries
    · exact hs

theorem run {p : Procedure} {keys args : List String}
    (h : ∀ now, Entries.Confined N P now (Entries.runProcedure now p keys args)) :
    Confined N P ((recordStore (m := Id)).run p keys args) :=
  call .run (fun s _ ↦ run_recordStore_run p keys args s) h

theorem get {name : String} (h : N name) : Confined N P ((recordStore (m := Id)).get name) :=
  call .get (fun s _ ↦ run_recordStore_get name s) fun _ ↦ .getText h

theorem setIfAbsent {name : String} (h : N name) (value : String) (ttl : Duration) :
    Confined N P ((recordStore (m := Id)).setIfAbsent name value ttl) :=
  call .setIfAbsent (fun s _ ↦ run_recordStore_setIfAbsent name value ttl s)
    fun _ ↦ (Entries.Confined.setIfAbsent h value ttl).map Except.ok

theorem batch {requests : List Request} (h : ∀ r ∈ requests, r.Within N P) :
    Confined N P ((recordStore (m := Id)).batch requests) :=
  call .batch (fun _ hs ↦ run_recordStore_batch requests (.of_cues_eq_nil hs))
    fun _ ↦ .carryOutAll h

end Confined

section

variable {c : Claimant}

theorem within_claimRequests (hc : c.Within P) (window : Duration) :
    ∀ r ∈ c.claimRequests window, r.Within (c.key.Owns P) P := by
  have hbaseline : ∀ config ∈ c.locations.keys, c.key.Owns P (c.key.baseline config) :=
    fun config hconfig ↦ ⟨.baseline config, hc config hconfig, rfl⟩
  intro r hr
  simp only [Claimant.claimRequests, Claimant.claimWrites_eq, Claimant.claimReads_eq,
    List.mem_append, List.mem_map] at hr
  rcases hr with (⟨p, hp, rfl⟩ | hr) | ⟨name, hname, rfl⟩
  · rcases List.mem_cons.mp hp with rfl | hp
    · exact ⟨.holder, trivial, rfl⟩
    · obtain ⟨e, he, rfl⟩ := List.mem_map.mp hp
      exact hbaseline e.1 (List.mem_map_of_mem he)
  · split at hr
    · cases hr
    · obtain rfl := List.mem_singleton.mp hr
      exact ⟨⟨.configs, trivial, rfl⟩, hc⟩
  · rcases List.mem_cons.mp hname with rfl | hname
    · exact ⟨.holder, trivial, rfl⟩
    · obtain ⟨config, hconfig, rfl⟩ := List.mem_map.mp hname
      exact hbaseline config hconfig

theorem confined_check (hc : c.Within P) (window : Duration) :
    Confined (c.key.Owns P) P (c.check (recordStore (m := Id)) Site.emit window) := by
  refine (Confined.batch (within_claimRequests hc window)).bind ?_
  intro r
  cases r with
  | error e => exact .pure _
  | ok replies =>
    cases hread : c.readClaim replies with
    | error e =>
      simp only [hread]
      exact .pure _
    | ok found =>
      simp only [hread]
      exact (Confined.emit _).bind fun _ ↦ .pure _

theorem confined_offer (c : Claimant) {locations : List (String × String)}
    (hlocations : ∀ p ∈ locations, P p.1)
    (measure : String → String → String → Except LsnError Int64) :
    Confined (c.key.Owns P) P (c.offer (recordStore (m := Id))
      (fun config location baseline ↦ pure (measure config location baseline)) locations) := by
  induction locations with
  | nil => exact .pure _
  | cons head rest ih =>
    obtain ⟨config, location⟩ := head
    have hconfig : P config := hlocations _ List.mem_cons_self
    rw [Claimant.offer, pure_bind]
    cases measure config location ((c.baselines.get? config).getD location) with
    | error e => exact .pure _
    | ok offset =>
      have hadvance : ∀ now, Entries.Confined (c.key.Owns P) P now (Entries.runProcedure now .advance
          [c.key.latest config, c.key.configs] [location, toString offset.toInt,
            toString c.settings.latestTtl.millis, config]) :=
        fun _ ↦ .advance ⟨.latest config, hconfig, rfl⟩ ⟨.configs, trivial, rfl⟩ hconfig _ _ _
      refine (Confined.run hadvance).bind ?_
      intro r
      cases r with
      | error e => exact .pure _
      | ok u => exact ih fun p hp ↦ hlocations p (List.mem_cons_of_mem _ hp)

theorem confined_readLatest (hc : c.Within P) :
    Confined (c.key.Owns P) P (c.readLatest (recordStore (m := Id))) := by
  have hreads : ∀ r ∈ c.locations.keys.map fun config ↦ Request.item (c.key.latest config) 0,
      r.Within (c.key.Owns P) P := by
    intro r hr
    obtain ⟨config, hconfig, rfl⟩ := List.mem_map.mp hr
    exact ⟨.latest config, hc config hconfig, rfl⟩
  rw [Claimant.readLatest]
  split
  · exact .pure _
  · split
    · exact .pure _
    · refine (Confined.batch hreads).bind ?_
      intro r
      cases r with
      | error e => exact .pure _
      | ok replies =>
        simp only
        split <;> exact .pure _

theorem confined_release (hc : c.Within P) :
    Confined (c.key.Owns P) P (c.release (recordStore (m := Id)) Site.emit) := by
  have hkeys : ∀ name ∈ [c.key.text, c.key.flag, c.key.configs], c.key.Owns P name := by
    intro name hname
    simp only [List.mem_cons, List.not_mem_nil, or_false] at hname
    rcases hname with rfl | rfl | rfl
    · exact ⟨.holder, trivial, rfl⟩
    · exact ⟨.flag, trivial, rfl⟩
    · exact ⟨.configs, trivial, rfl⟩
  have hpositions : ∀ config, P config → ∀ name ∈ Entries.positionKeys c.key.text config,
      c.key.Owns P name := by
    intro config hconfig name hname
    simp only [Entries.positionKeys, List.mem_cons, List.not_mem_nil, or_false] at hname
    rcases hname with rfl | rfl
    · exact ⟨.baseline config, hconfig, rfl⟩
    · exact ⟨.latest config, hconfig, rfl⟩
  refine (Confined.run fun _ ↦ .release hkeys hpositions hc).bind ?_
  intro r
  cases r with
  | error e => exact .pure _
  | ok u => exact (Confined.emit _).bind fun _ ↦ .pure _

theorem confined_setFlag (c : Claimant) (ttl : Duration) :
    Confined (c.key.Owns P) P (c.setFlag (recordStore (m := Id)) ttl) := by
  rw [Claimant.setFlag]
  split
  · refine (Confined.setIfAbsent ⟨.flag, trivial, rfl⟩ "1" ttl).bind ?_
    intro r
    cases r <;> exact .pure _
  · exact .pure _

theorem confined_flagged (c : Claimant) :
    Confined (c.key.Owns P) P (c.flagged (recordStore (m := Id))) := by
  rw [Claimant.flagged]
  split
  · refine (Confined.get ⟨.flag, trivial, rfl⟩).bind ?_
    intro r
    cases r <;> exact .pure _
  · exact .pure _

end

end Site

end UniqueJobs
