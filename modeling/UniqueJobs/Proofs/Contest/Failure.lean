import UniqueJobs.Proofs.Contest.Basic
import UniqueJobs.Proofs.Site.Failure

/-!
The records of a logical job never get in the way of one another. Main statement:
`records_never_clash`, that every live record holds what its name is for and that the calls of a
contest therefore fail for four reasons only, none of which is that the store holds something else.
-/

namespace UniqueJobs.Contest

def fault? {α : Type} : Except ClaimError α → Option ClaimError
  | .error e => some e
  | .ok _ => none

def Answer.fault? : Answer → Option ClaimError
  | .winner r => Contest.fault? r
  | .latest r => Contest.fault? r
  | .flag r => Contest.fault? r
  | .done r => Contest.fault? r

/-- The failures that are left to the calls: the store is out of reach, no check has been answered,
a location cannot be measured, or positions are to last longer than can be said. -/
inductive Excused (s : Site) (c : Claimant) : Call → ClaimError → Prop
  | out {call : Call} {why : Outage} (h : s.OutFor why) :
      Excused s c call (.store (.unavailable why))
  | notChecked {measure : String → String → String → Except LsnError Int64} (h : c.winner = none) :
      Excused s c (.offerLocations measure) .notChecked
  | offerLocations {measure : String → String → String → Except LsnError Int64} {e : ClaimError}
      (h : s.OfferFails c measure c.locations.entries e) : Excused s c (.offerLocations measure) e
  | offer {measure : String → String → String → Except LsnError Int64}
      {locations : List (String × String)} {e : ClaimError}
      (h : s.OfferFails c measure locations e) : Excused s c (.offer locations measure) e

section

variable {s : Site} {c : Claimant} {call : Call} {α : Type} {r : Except ClaimError α}
  {e : ClaimError}

theorem eq_error_of_fault? (h : fault? r = some e) : r = .error e := by
  cases r with
  | ok => cases h
  | error e' => exact congrArg _ (Option.some.inj h)

theorem Excused.of_failsByOutage (hr : s.FailsByOutage r) (h : fault? r = some e) :
    Excused s c call e := by
  obtain ⟨why, rfl, hwhy⟩ := hr e (eq_error_of_fault? h)
  exact .out hwhy

/-- Every call of a claimant on a store that is sound for its key, one case a call. -/
theorem Call.act_excused (hs : s.Honest) (hout : s.OnlyOutages)
    (hsound : Sound c.key s.clock s.store.entries) (call : Call) :
    Site.Does unnoted (call.act c) s fun r _ _ ↦
      ∀ e, r.1.fault? = some e → Excused s c call e := by
  have hstore : Site.Serves unnoted Site.recordStore := Site.serves_recordStore
  cases call with
  | check window =>
    exact (Site.check_failsByOutage hstore hs hout hsound window).map
      fun _ _ _ h _ ↦ .of_failsByOutage h
  | offer locations measure =>
    refine (Site.offer_offerFails measure hstore (fun _ _ _ ↦ rfl) hout hsound
      locations).map ?_
    intro r _ _ h e he
    exact .offer (h e (eq_error_of_fault? he))
  | offerLocations measure =>
    rw [Call.act, Claimant.offerLocations]
    by_cases hempty : c.locations.isEmpty = true
    · rw [if_pos hempty]
      exact Site.Does.pure (fun _ h ↦ (by cases h))
    by_cases hwinner : c.winner.isNone = true
    · rw [if_neg hempty, if_pos hwinner]
      refine Site.Does.pure ?_
      intro e he
      cases he
      exact .notChecked (Option.isNone_iff_eq_none.mp hwinner)
    · rw [if_neg hempty, if_neg hwinner]
      refine (Site.offer_offerFails measure hstore (fun _ _ _ ↦ rfl) hout hsound
        c.locations.entries).map ?_
      intro r _ _ h e he
      exact .offerLocations (h e (eq_error_of_fault? he))
  | readLatest =>
    exact (Site.readLatest_failsByOutage hstore hs hout hsound).map
      fun _ _ _ h _ ↦ .of_failsByOutage h
  | setFlag ttl =>
    exact (Site.setFlag_failsByOutage hstore hout ttl).map fun _ _ _ h _ ↦ .of_failsByOutage h
  | flagged =>
    exact (Site.flagged_failsByOutage hstore hout hsound).map
      fun _ _ _ h _ ↦ .of_failsByOutage h
  | release =>
    exact (Site.release_failsByOutage hstore hout hsound).map
      fun _ _ _ h _ ↦ .of_failsByOutage h

theorem isDuplicate_error (h : c.isDuplicate = .error e) :
    e = .notChecked ∧ c.winner = none := by
  rw [Claimant.isDuplicate] at h
  cases hwinner : c.winner with
  | some winner =>
    rw [hwinner] at h
    cases h
  | none =>
    rw [hwinner] at h
    cases h
    exact ⟨rfl, rfl⟩

end

variable {ι : Type} [DecidableEq ι] {k : JobKey} {g : Contest ι}

/-- Is nothing refused in the turn but by an outage? -/
def Turn.FailsByOutage : Turn ι → Prop
  | .fail _ _ e => ∃ why, e = .unavailable why
  | _ => True

theorem onlyOutages_play {t : Turn ι} (hg : g.site.Honest) (hout : g.site.OnlyOutages)
    (ht : t.FailsByOutage) : (g.play t).2.site.OnlyOutages := by
  cases t with
  | call i call =>
    obtain ⟨⟨answer, c⟩, calls, s, hrun, hcourse, -⟩ :=
      (Call.does_act (c := g.claimant i) hg call).exists_run
    rw [play_call hrun]
    exact hcourse.steady.onlyOutages hout
  | wait | switch => exact hout
  | fail kind skip e =>
    obtain ⟨why, rfl⟩ := ht
    exact hout.push kind skip why

theorem onlyOutages_after {turns : List (Turn ι)} (hg : g.site.Honest) (hout : g.site.OnlyOutages)
    (hturns : ∀ t ∈ turns, t.FailsByOutage) : (g.after turns).site.OnlyOutages := by
  induction turns generalizing g with
  | nil => exact hout
  | cons t rest ih =>
    have hfirst := onlyOutages_play hg hout (hturns t List.mem_cons_self)
    exact ih (play_alike hg t).2.2 hfirst fun t ht ↦ hturns t (List.mem_cons_of_mem _ ht)

theorem excused_of_play {i : ι} {call : Call} {answer : Answer} {e : ClaimError} (hg : g.Fair k)
    (hout : g.site.OnlyOutages) (hanswer : (g.play (.call i call)).1 = some answer)
    (he : answer.fault? = some e) : Excused g.site (g.claimant i) call e := by
  have hsound := hg.sound
  rw [← hg.key i] at hsound
  obtain ⟨⟨answer', c⟩, calls, s, hrun, hexcused⟩ :=
    (Call.act_excused hg.honest hout hsound call).exists_run
  rw [play_call hrun] at hanswer
  obtain rfl := Option.some.inj hanswer
  exact hexcused e he

/-- Records of one key have different names, each holds all along what it is for, and so calls fail
only where they are excused. -/
theorem records_never_clash {start : Contest ι} (hstart : start.Opens k)
    (hcues : start.site.OnlyOutages) (turns : List (Turn ι))
    (hturns : ∀ t ∈ turns, t.FailsByOutage) :
    (∀ r r' : Record, r.name k = r'.name k → r = r') ∧
    let g := start.after turns
    (∀ (r : Record) e, g.live? (r.name k) = some e → r.Fits e.content) ∧
    (∀ i call answer e, (g.play (.call i call)).1 = some answer → answer.fault? = some e →
      Excused g.site (g.claimant i) call e) ∧
    ∀ i e, (g.claimant i).isDuplicate = .error e →
      e = .notChecked ∧ (g.claimant i).winner = none := by
  refine ⟨Record.name_injective k, ?_⟩
  intro g
  have hg : g.Fair k := hstart.fair.after turns
  have hout := onlyOutages_after hstart.honest hcues hturns
  exact ⟨hg.sound.fit, fun i call answer e ↦ excused_of_play hg hout,
    fun i e ↦ isDuplicate_error⟩

set_option maxRecDepth 10000 in
/-- What one instance has reported is a position with its offset, and the other one finds the store
switched off. -/
theorem records_never_clash_twins :
    let g := twins.after [.call false (.check (.ofMillis 1000)),
      .call false (.offerLocations fun _ location baseline ↦ Lsn.distance location baseline),
      .switch false]
    (Record.latest "main").Fits (.list ["0/1", "0"]) ∧
      Excused g.site (g.claimant true) (.check (.ofMillis 5))
        (.store (.unavailable .switchedOff)) ∧
      (g.claimant true).winner = none := by
  have h := records_never_clash opens_twins (fun _ _ hq ↦ by cases hq)
    [.call false (.check (.ofMillis 1000)),
      .call false (.offerLocations fun _ location baseline ↦ Lsn.distance location baseline),
      .switch false] (by simp [Turn.FailsByOutage])
  exact ⟨h.2.1 (.latest "main") ⟨.list ["0/1", "0"], some ⟨60_000_000_000⟩⟩ rfl,
    h.2.2.1 true (.check (.ofMillis 5)) _ _ rfl rfl, (h.2.2.2 true .notChecked rfl).2⟩

end UniqueJobs.Contest
