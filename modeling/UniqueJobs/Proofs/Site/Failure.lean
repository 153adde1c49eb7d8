import UniqueJobs.Proofs.Claimant.Latest
import UniqueJobs.Proofs.Site.Course

/-!
How the calls of a claimant fail at a site whose store is sound for its key and fails by being out of
reach alone. A call that gets through to the store is answered; `does_call` says so of any call that
is a request and a reading of the answer, and each function of a claimant is one use of it.
-/

namespace UniqueJobs.Site

open Entries

/-- May the store be out of reach for the reason: is it switched off, or told to fail so? -/
def OutFor (why : Outage) (s : Site) : Prop :=
  (s.store.available = false ∧ why = .switchedOff) ∨
    ∃ kind, (kind, Cue.fail (.unavailable why)) ∈ s.cues

/-- Is the store told to fail in no other way than by being out of reach? -/
def OnlyOutages (s : Site) : Prop :=
  ∀ kind e, (kind, Cue.fail e) ∈ s.cues → ∃ why, e = .unavailable why

theorem mem_of_pop_eq_fail {kind : CallKind} {cues : Cues} {e : StoreError}
    (h : (cues.pop kind).1 = .fail e) : (kind, Cue.fail e) ∈ cues := by
  induction cues with
  | nil => cases h
  | cons head rest ih =>
    obtain ⟨k, cue⟩ := head
    rw [Cues.pop] at h
    by_cases hk : k = kind
    · subst hk
      rw [if_pos rfl] at h
      obtain rfl : cue = .fail e := h
      exact List.mem_cons_self
    · rw [if_neg hk] at h
      exact List.mem_cons_of_mem _ (ih h)

theorem outFor_of_refusal {s : Site} {kind : CallKind} {e : StoreError} (hs : s.OnlyOutages)
    (h : s.refusal? kind = some e) : ∃ why, e = .unavailable why ∧ s.OutFor why := by
  have hswitch : (if s.store.available then none else some (.unavailable .switchedOff)) = some e →
      ∃ why, e = .unavailable why ∧ s.OutFor why := by
    intro hsome
    cases ha : s.store.available with
    | true => simp [ha] at hsome
    | false =>
      simp only [ha, Bool.false_eq_true, ↓reduceIte, Option.some.injEq] at hsome
      exact ⟨.switchedOff, hsome.symm, .inl ⟨ha, rfl⟩⟩
  rw [refusal?] at h
  split at h
  · rename_i e' hpop
    obtain rfl := Option.some.inj h
    have hmem := mem_of_pop_eq_fail hpop
    obtain ⟨why, rfl⟩ := hs kind e' hmem
    exact ⟨why, rfl, .inr ⟨kind, hmem⟩⟩
  · exact hswitch h

theorem Steady.onlyOutages {s s' : Site} (h : Steady s s') (hs : s.OnlyOutages) : s'.OnlyOutages :=
  fun kind e hmem ↦ hs kind e (h.cues _ hmem)

theorem Steady.outFor {s s' : Site} {why : Outage} (h : Steady s s') (hout : s'.OutFor why) :
    s.OutFor why := by
  rcases hout with ⟨hoff, hwhy⟩ | ⟨kind, hmem⟩
  · exact .inl ⟨h.available.symm.trans hoff, hwhy⟩
  · exact .inr ⟨kind, h.cues _ hmem⟩

theorem OnlyOutages.push {s : Site} (hs : s.OnlyOutages) (kind : CallKind) (skip : Nat)
    (why : Outage) :
    OnlyOutages { s with cues := s.cues.push kind skip (.fail (.unavailable why)) } := by
  intro kind' e hmem
  simp only [Cues.push, List.mem_append, List.mem_replicate, List.mem_singleton] at hmem
  rcases hmem with (hmem | ⟨-, hpass⟩) | hlast
  · exact hs kind' e hmem
  · cases hpass
  · cases hlast
    exact ⟨why, rfl⟩

/-- Does an answer fail by nothing but the store being out of reach? -/
def FailsByOutage {α : Type} (s : Site) (r : Except ClaimError α) : Prop :=
  ∀ e, r = .error e → ∃ why, e = .store (.unavailable why) ∧ s.OutFor why

theorem FailsByOutage.ok {α : Type} {s : Site} (a : α) : s.FailsByOutage (.ok a) :=
  fun _ h ↦ (by cases h)

theorem FailsByOutage.out {α : Type} {s : Site} {why : Outage} (h : s.OutFor why) :
    s.FailsByOutage (α := α) (.error (.store (.unavailable why))) := by
  intro e he
  cases he
  exact ⟨why, rfl, h⟩

section

variable {m : Type → Type} [Monad m] [LawfulMonad m] {note : Site → Site → m Unit}
  {store : RecordStore (StateT Site m)} {c : Claimant} {s : Site}

/-- A request and what is made of the answer: either the store is out of reach, or the request is
carried out on the entries. -/
theorem does_call {α β : Type} {x : StateT Site m (Except StoreError α)} {kind : CallKind}
    {f : Entries → Except StoreError α × Entries} {R : β → Prop} (hout : s.OnlyOutages)
    (hx : x.run s = noted note s (s.call kind f)) (next : Except StoreError α → StateT Site m β)
    (hrefused : ∀ why, s.OutFor why → ∃ b, next (.error (.unavailable why)) = pure b ∧ R b)
    (hdone : Does note (next (f s.store.entries).1) (s.call kind f).2 fun b _ _ ↦ R b) :
    Does note (x >>= next) s fun b _ _ ↦ R b := by
  refine Does.bind_call hx ?_
  cases hrefusal : s.refusal? kind with
  | some e =>
    obtain ⟨why, rfl, hwhy⟩ := outFor_of_refusal hout hrefusal
    obtain ⟨b, hb, hR⟩ := hrefused why hwhy
    rw [(call_of_refusal_eq_some hrefusal).1, hb]
    exact Does.pure hR
  | none =>
    rw [(call_of_refusal_eq_none hrefusal).1]
    exact hdone

theorem does_emit {β : Type} (e : Event) {b : β} {R : β → Prop} (h : R b) :
    Does note (do emit e; pure b) s fun b' _ _ ↦ R b' :=
  ⟨b, [], s.emitted e, by simp [run_emit, noteAll], h⟩

theorem check_failsByOutage (hstore : Serves note store) (hs : s.Honest) (hout : s.OnlyOutages)
    (hsound : Sound c.key s.clock s.store.entries) (window : Duration) :
    Does note (c.check store emit window) s fun r _ _ ↦ s.FailsByOutage r.1 := by
  obtain ⟨replies, winner, baselines, hreplies, hread⟩ :=
    Claimant.exists_readClaim (hsound.claim window).fit
  refine does_call hout (hstore.batch (c.claimRequests window) s hs) _ ?_ ?_
  · intro why hwhy
    exact ⟨_, rfl, .out hwhy⟩
  · rw [hreplies]
    simp only [hread]
    exact does_emit _ (.ok winner)

theorem release_failsByOutage (hstore : Serves note store) (hout : s.OnlyOutages)
    (hsound : Sound c.key s.clock s.store.entries) :
    Does note (c.release store emit) s fun r _ _ ↦ s.FailsByOutage r := by
  have hok : (runProcedure s.clock .release [c.key.text, c.key.flag, c.key.configs]
      c.locations.keys s.store.entries).1 = .ok () := (hsound.release_eq_none _).1
  refine does_call hout (hstore.run _ _ _ s) _ ?_ ?_
  · intro why hwhy
    exact ⟨_, rfl, .out hwhy⟩
  · rw [hok]
    exact does_emit _ (.ok ())

theorem setFlag_failsByOutage (hstore : Serves note store) (hout : s.OnlyOutages) (ttl : Duration) :
    Does note (c.setFlag store ttl) s fun r _ _ ↦ s.FailsByOutage r := by
  rw [Claimant.setFlag]
  split
  · refine does_call hout (hstore.setIfAbsent _ _ _ s) _ ?_ ?_
    · intro why hwhy
      exact ⟨_, rfl, .out hwhy⟩
    · exact Does.pure (.ok ())
  · exact Does.pure (.ok ())

theorem flagged_failsByOutage (hstore : Serves note store) (hout : s.OnlyOutages)
    (hsound : Sound c.key s.clock s.store.entries) :
    Does note (c.flagged store) s fun r _ _ ↦ s.FailsByOutage r := by
  have hok : ∃ v, (getText s.clock c.key.flag s.store.entries).1 = .ok v := by
    rw [getText_fst]
    rcases hl : s.store.entries.live? s.clock c.key.flag with _ | ⟨_ | _ | _, x⟩
    · exact ⟨_, rfl⟩
    · exact ⟨_, rfl⟩
    · exact False.elim (hsound.fit .flag _ hl)
    · exact False.elim (hsound.fit .flag _ hl)
  obtain ⟨v, hv⟩ := hok
  rw [Claimant.flagged]
  split
  · refine does_call hout (hstore.get _ s) _ ?_ ?_
    · intro why hwhy
      exact ⟨_, rfl, .out hwhy⟩
    · rw [hv]
      exact Does.pure (.ok v.isSome)
  · exact Does.pure (.ok false)

theorem readLatest_failsByOutage (hstore : Serves note store) (hs : s.Honest)
    (hout : s.OnlyOutages) (hsound : Sound c.key s.clock s.store.entries) :
    Does note (c.readLatest store) s fun r _ _ ↦ s.FailsByOutage r.1 := by
  obtain ⟨replies, d, hreplies, hd, -⟩ := Claimant.exists_latest hsound
  rw [Claimant.readLatest]
  split
  · exact Does.pure (.ok _)
  · split
    · exact Does.pure (.ok _)
    · refine does_call hout (hstore.batch c.latestReads s hs) _ ?_ ?_
      · intro why hwhy
        exact ⟨_, rfl, .out hwhy⟩
      · rw [hreplies]
        simp only [hd]
        exact Does.pure (.ok d)

/-- Why an offer of locations may fail. -/
inductive OfferFails (s : Site) (c : Claimant)
    (measure : String → String → String → Except LsnError Int64)
    (locations : List (String × String)) : ClaimError → Prop
  | out {why : Outage} (h : s.OutFor why) : OfferFails s c measure locations
      (.store (.unavailable why))
  | unmeasured {config location : String} {e : LsnError} (hmem : (config, location) ∈ locations)
      (h : measure config location ((c.baselines.get? config).getD location) = .error e) :
      OfferFails s c measure locations (.distance config e.message)
  /-- The time that a furthest position is to last has more milliseconds than 64 bits hold. -/
  | overlong (h : UInt64.size ≤ c.settings.latestTtl.millis) : OfferFails s c measure locations
      (.store (.script (.ttl (toString c.settings.latestTtl.millis) .tooLarge)))

variable {distance : Distance (StateT Site m)} {measure : String → String → String →
  Except LsnError Int64}

theorem OfferFails.earlier {s' : Site} {head : String × String} {rest : List (String × String)}
    {e : ClaimError} (hsteady : Steady s s') (h : OfferFails s' c measure rest e) :
    OfferFails s c measure (head :: rest) e := by
  cases h with
  | out hout => exact .out (hsteady.outFor hout)
  | unmeasured hmem hmeasure => exact .unmeasured (List.mem_cons_of_mem _ hmem) hmeasure
  | overlong h => exact .overlong h

variable (measure) in
/-- One location after the other is offered to a store that is as sound as before. -/
theorem offer_offerFails (hstore : Serves note store)
    (hdistance : ∀ config location baseline,
      distance config location baseline = pure (measure config location baseline))
    (hout : s.OnlyOutages) (hsound : Sound c.key s.clock s.store.entries)
    (locations : List (String × String)) :
    Does note (c.offer store distance locations) s fun r _ _ ↦
      ∀ e, r = .error e → OfferFails s c measure locations e := by
  induction locations generalizing s with
  | nil => exact Does.pure (fun _ h ↦ (by cases h))
  | cons head rest ih =>
    obtain ⟨config, location⟩ := head
    rw [Claimant.offer, hdistance, pure_bind]
    cases hmeasure : measure config location ((c.baselines.get? config).getD location) with
    | error e =>
      refine Does.pure ?_
      intro e' he
      cases he
      exact .unmeasured List.mem_cons_self hmeasure
    | ok offset =>
      refine does_call hout (hstore.run _ _ _ s) _ ?_ ?_
      · intro why hwhy
        refine ⟨_, rfl, ?_⟩
        intro e he
        cases he
        exact .out hwhy
      · have hfst : (runProcedure s.clock .advance [c.key.latest config, c.key.configs]
            [location, toString offset.toInt, toString c.settings.latestTtl.millis, config]
              s.store.entries).1 = _ :=
          Contact.advance_fst_of_sound hsound config location offset c.settings.latestTtl.millis
        rw [hfst]
        by_cases hsize : c.settings.latestTtl.millis < UInt64.size
        · rw [if_pos hsize]
          have hcourse : Course c (fun _ ↦ True) s _ (s.call .run (runProcedure s.clock .advance
              [c.key.latest config, c.key.configs] [location, toString offset.toInt,
                toString c.settings.latestTtl.millis, config])).2 :=
            .one (touches_call (.advance config location offset) trivial rfl) (.refl _)
          have hsteady := hcourse.steady
          refine (ih (hsteady.onlyOutages hout) (hcourse.sound hsound)).imp ?_
          intro r calls s' h e he
          exact (h e he).earlier hsteady
        · rw [if_neg hsize]
          refine Does.pure ?_
          intro e he
          cases he
          exact .overlong (Nat.le_of_not_lt hsize)

end

end UniqueJobs.Site
