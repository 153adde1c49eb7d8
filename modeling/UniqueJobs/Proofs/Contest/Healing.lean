import UniqueJobs.Proofs.Claimant.Expiry
import UniqueJobs.Proofs.Contest.Election
import UniqueJobs.Proofs.Dictionary

/-!
Records that nobody looks after any more are gone when the longest time to live is over. Main
statement: `orphans_expire`, that after a pause of that length no record of the key is live, whatever
became of the instances, and the next check is won with locations of its own.
-/

namespace UniqueJobs.Contest

open Entries

/-- Is no time to live in the call longer? -/
def Call.Brief (longest : Duration) : Call → Prop
  | .check window => window.nanos ≤ longest.nanos
  | .setFlag ttl => ttl.nanos ≤ longest.nanos
  | _ => True

theorem Call.brief_of_makes {longest : Duration} {c : Claimant} {call : Call} {contact : Contact}
    (h : call.Makes contact) (hcall : call.Brief longest)
    (hlatest : c.settings.latestTtl.nanos ≤ longest.nanos) : contact.Brief longest c := by
  cases call with
  | offerLocations | offer =>
    obtain ⟨config, location, offset, rfl⟩ := h
    exact hlatest
  | check | setFlag =>
    cases h
    exact hcall
  | readLatest | flagged | release =>
    cases h
    trivial

variable {ι : Type}

def Turn.Brief (longest : Duration) : Turn ι → Prop
  | .call _ made => made.Brief longest
  | _ => True

/-- Is the turn no call? -/
def Turn.Idle : Turn ι → Prop
  | .call .. => False
  | _ => True

/-- No instance lets a position that it reports live longer. -/
def LatestWithin (longest : Duration) (g : Contest ι) : Prop :=
  ∀ i, (g.claimant i).settings.latestTtl.nanos ≤ longest.nanos

/-- Every live record of the key expires by the bound. -/
def Expires (bound : Nat) (k : JobKey) (g : Contest ι) : Prop :=
  GoneBy bound k g.site.clock g.site.store.entries

variable [DecidableEq ι] {k : JobKey} {g : Contest ι} {t : Turn ι} {bound : Nat} {longest : Duration}

theorem LatestWithin.play (h : g.LatestWithin longest) (hg : g.site.Honest) (t : Turn ι) :
    (g.play t).2.LatestWithin longest := by
  intro i
  rw [((play_alike hg t).1 i).settings]
  exact h i

/-- What is written in a turn expires by the bound, if there is time enough before it. -/
theorem Expires.play (h : g.Expires bound k) (hg : g.Fair k) (hlatest : g.LatestWithin longest)
    (ht : t.Brief longest) (hbound : g.site.clock.nanos + max longest.nanos minTtl.nanos ≤ bound)
    (hlimit : bound < Instant.limit) : (g.play t).2.Expires bound k := by
  cases t with
  | call i call =>
    obtain ⟨⟨answer, c⟩, calls, s, hrun, hcourse, -⟩ :=
      (Call.does_act (c := g.claimant i) hg.honest call).exists_run
    rw [Expires, ← hg.key i] at h
    rw [play_call hrun, Expires, ← hg.key i, hcourse.steady.clock]
    refine hcourse.preserves (fun contact es hmakes hes ↦ ?_) h
    exact hes.effect (Call.brief_of_makes hmakes ht (hlatest i)) hbound hlimit
  | wait d => exact h.wait (Nat.le_add_right _ _)
  | switch | fail => exact h

theorem Expires.after {turns : List (Turn ι)} (h : g.Expires bound k) (hg : g.Fair k)
    (hlatest : g.LatestWithin longest) (hturns : ∀ t ∈ turns, t.Brief longest)
    (hbound : (g.after turns).site.clock.nanos + max longest.nanos minTtl.nanos ≤ bound)
    (hlimit : bound < Instant.limit) : (g.after turns).Expires bound k := by
  induction turns generalizing g with
  | nil => exact h
  | cons t rest ih =>
    obtain ⟨ht, hrest⟩ := List.forall_mem_cons.mp hturns
    -- The bound is counted from the last turn, and no earlier one is later than that.
    have hclock := (after_alike hg.honest (t :: rest)).2
    have hnext := h.play hg hlatest ht (by omega) hlimit
    exact ih hnext (hg.play t) (hlatest.play hg.honest t) hrest hbound

theorem Expires.idle {turns : List (Turn ι)} (h : g.Expires bound k)
    (hturns : ∀ t ∈ turns, t.Idle) : (g.after turns).Expires bound k := by
  induction turns generalizing g with
  | nil => exact h
  | cons t rest ih =>
    obtain ⟨ht, hrest⟩ := List.forall_mem_cons.mp hturns
    refine ih ?_ hrest
    cases t with
    | call => exact False.elim ht
    | wait d => exact h.wait (Nat.le_add_right _ _)
    | switch | fail => exact h

omit [DecidableEq ι] in
theorem Expires.live?_eq_none (h : g.Expires bound k) (hclock : bound ≤ g.site.clock.nanos)
    (r : Record) : g.live? (r.name k) = none := h.eq_none hclock r

/-- Where no record is live, whoever checks next wins with locations of its own. -/
theorem check_of_live?_eq_none (hg : g.Fair k) (hnone : ∀ r : Record, g.live? (r.name k) = none)
    (hrefusal : g.site.refusal? .batch = none) (i : ι) (window : Duration) :
    (g.play (.call i (.check window))).1 = some (.winner (.ok (g.claimant i).id)) ∧
      ((g.play (.call i (.check window))).2.claimant i).isDuplicate = .ok false ∧
      ((g.play (.call i (.check window))).2.claimant i).baselines = (g.claimant i).locations := by
  obtain ⟨winner, hwinner⟩ := exists_winner_of_play hg i window hrefusal
  have hown : winner = (g.claimant i).id := by
    rw [winner_of_play hg hwinner, holder?_of_live?_eq_none (hnone .holder)]
    rfl
  have hduplicate := isDuplicate_of_play hg hwinner
  rw [hown] at hwinner hduplicate
  refine ⟨hwinner, by simpa using hduplicate, Dictionary.ext_get? fun config ↦ ?_⟩
  obtain ⟨-, hbaselines⟩ := text?_of_play hg hwinner
  rw [hbaselines]
  cases hlocation : (g.claimant i).locations.get? config with
  | none => rw [if_neg (by simp [Dictionary.contains, hlocation])]
  | some location =>
    have hnew := live?_of_play (r := .baseline config) hg hwinner hlocation (hnone _)
    obtain ⟨c, s, hplay, hsteady, -⟩ := exists_checked hg hwinner
    rw [if_pos (by simp [Dictionary.contains, hlocation]), ← text?_of_live? hnew, hplay]
    exact congrArg (fun now ↦ text? now _ s.store.entries) hsteady.clock.symm

/-- Orphaned records heal by themselves. After any turns, in which the store may fail and instances
may fall silent, a pause as long as the longest time to live leaves no record of the key, and then
whoever checks is the winner, and no duplicate, with the locations that it brings as baselines. -/
theorem orphans_expire {start : Contest ι} (hstart : start.Opens k)
    (hlatest : ∀ i, (start.claimant i).settings.latestTtl.nanos ≤ longest.nanos)
    {turns idle : List (Turn ι)} (hturns : ∀ t ∈ turns, t.Brief longest)
    (hidle : ∀ t ∈ idle, t.Idle)
    (hlimit : (start.after turns).site.clock.nanos + max longest.nanos minTtl.nanos <
      Instant.limit)
    (htime : (start.after turns).site.clock.nanos + max longest.nanos minTtl.nanos ≤
      ((start.after turns).after idle).site.clock.nanos) :
    let later := (start.after turns).after idle
    (∀ r : Record, later.live? (r.name k) = none) ∧
    (later.site.refusal? .batch = none → ∀ i window,
      let checked := later.play (.call i (.check window))
      checked.1 = some (.winner (.ok (start.claimant i).id)) ∧
      (checked.2.claimant i).isDuplicate = .ok false ∧
      (checked.2.claimant i).baselines = (start.claimant i).locations) := by
  intro later
  have hopening : start.Expires
      ((start.after turns).site.clock.nanos + max longest.nanos minTtl.nanos) k := by
    rw [Expires, hstart.empty]
    exact .empty _ k _
  have hturned := hopening.after hstart.fair hlatest hturns (Nat.le_refl _) hlimit
  have hnone := (hturned.idle hidle).live?_eq_none htime
  refine ⟨hnone, fun hrefusal i window ↦ ?_⟩
  have hfair : later.Fair k := (hstart.fair.after turns).after idle
  have hsame := ((after_alike hstart.honest turns).1 i).trans
    ((after_alike (hstart.fair.after turns).honest idle).1 i)
  have hcheck := check_of_live?_eq_none hfair hnone hrefusal i window
  rwa [hsame.id, hsame.locations] at hcheck

set_option maxRecDepth 10000 in
/-- The winner is never heard of again, and its duplicate has made the set of configs last longer. A
minute after that the duplicate wins with its own location. -/
theorem orphans_expire_twins :
    let turns : List (Turn Bool) := [.call false (.check (.ofMillis 1000)),
      .call false (.offerLocations fun _ location baseline ↦ Lsn.distance location baseline),
      .fail .batch 0 (.unavailable .switchedOff), .call true (.check (.ofMillis 1000)),
      .wait (.ofMillis 500), .call true (.check (.ofMillis 60_000))]
    let idle : List (Turn Bool) := [.switch false, .wait (.ofMillis 60_000), .switch true]
    let later := (twins.after turns).after idle
    (twins.after turns).live? "k:wal_configs" =
      some ⟨.names (.ofNames ["main"]), some ⟨60_500_000_000⟩⟩ ∧
    (∀ r : Record, later.live? (r.name ⟨"k"⟩) = none) ∧
    (later.play (.call true (.check (.ofMillis 5)))).1 = some (.winner (.ok ⟨"b"⟩)) ∧
    ((later.play (.call true (.check (.ofMillis 5)))).2.claimant true).baselines.get? "main" =
      some "0/2" := by
  intro turns idle later
  have hlatest : ∀ i, (twins.claimant i).settings.latestTtl.nanos ≤
      (Duration.ofMillis 60_000).nanos := by
    intro i
    change Settings.default.latestTtl.nanos ≤ _
    decide
  have hsecond : (Duration.ofMillis 1000).nanos ≤ (Duration.ofMillis 60_000).nanos := by decide
  have hturns : ∀ t ∈ turns, t.Brief (.ofMillis 60_000) := by
    simp [turns, Turn.Brief, Call.Brief, hsecond]
  have hidle : ∀ t ∈ idle, t.Idle := by simp [idle, Turn.Idle]
  obtain ⟨hnone, hcheck⟩ :=
    orphans_expire opens_twins hlatest hturns hidle (by decide +kernel) (by decide +kernel)
  have hrefusal : ((twins.after turns).after idle).site.refusal? .batch = none := by
    decide +kernel
  obtain ⟨hwinner, -, hbaselines⟩ := hcheck hrefusal true (.ofMillis 5)
  refine ⟨by decide +kernel, hnone, hwinner, ?_⟩
  rw [hbaselines]
  rfl

end UniqueJobs.Contest
