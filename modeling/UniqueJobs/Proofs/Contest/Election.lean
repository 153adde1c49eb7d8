import UniqueJobs.Proofs.Contest.Basic

/-!
The election of one holder and of one baseline for every config. Main statement: `check_elects`, that
a check is answered unless the store refuses it, that it names the holder, and that what it writes is
what later checks answer, whoever makes them, until its time is over or a release succeeds.
-/

namespace UniqueJobs

open Entries

namespace Contest

variable {ι : Type} {k : JobKey} {g : Contest ι}

def holder? (k : JobKey) (g : Contest ι) : Option JobId :=
  (text? g.site.clock k.text g.site.store.entries).map JobId.mk

theorem holder?_of_live?_eq_none (h : g.live? k.text = none) : g.holder? k = none := by
  rw [live?] at h
  simp only [holder?, text?, h, Option.map_none]

/-- The winner of a check is the holder it finds, or else its own instance. -/
theorem winner_of_checked {c c' : Claimant} {window : Duration} {s : Site} {winner : JobId}
    (h : Site.Checked c window g.site s (.ok winner, c')) :
    winner = (g.holder? c.key).getD c.id := by
  cases h with
  | answered _ baselines hentries hwinner hbaselines =>
    rw [hentries] at hwinner
    cases hlive : g.site.store.entries.live? g.site.clock c.key.text with
    | none =>
      have hnew := Contact.live?_claim_of_offered (c := c) (r := .holder) window hlive rfl
      have hid := (text?_of_live? hnew).symm.trans hwinner
      rw [holder?_of_live?_eq_none hlive]
      exact congrArg JobId.mk (Option.some.inj hid).symm
    | some e =>
      have hold := Contact.live?_claim_of_live (c := c) (r := .holder) window (by simp) hlive
      have hfound : text? g.site.clock c.key.text g.site.store.entries = some winner.text :=
        (text?_congr (hold.trans hlive.symm)).symm.trans hwinner
      rw [holder?, hfound]
      rfl

variable [DecidableEq ι] {i : ι} {window : Duration} {winner : JobId}

theorem exists_checked (hg : g.Fair k)
    (h : (g.play (.call i (.check window))).1 = some (.winner (.ok winner))) :
    ∃ c s, g.play (.call i (.check window)) =
        (some (.winner (.ok winner)), ⟨s, Function.update g.claimant i c⟩) ∧
      Site.Steady g.site s ∧ Site.Checked (g.claimant i) window g.site s (.ok winner, c) := by
  obtain ⟨r, c, s, hplay, hsteady, hchecked, -⟩ := play_check hg.honest i window
  obtain rfl : r = .ok winner := by simpa [hplay] using h
  exact ⟨c, s, hplay, hsteady, hchecked⟩

theorem exists_winner_of_play (hg : g.Fair k) (i : ι) (window : Duration)
    (hrefusal : g.site.refusal? .batch = none) :
    ∃ winner, (g.play (.call i (.check window))).1 = some (.winner (.ok winner)) := by
  obtain ⟨r, c, s, hplay, -, -, hanswer⟩ := play_check hg.honest i window
  have hsound := hg.sound
  rw [← hg.key i] at hsound
  obtain ⟨winner, rfl⟩ := hanswer hsound hrefusal
  exact ⟨winner, congrArg Prod.fst hplay⟩

theorem winner_of_play (hg : g.Fair k)
    (h : (g.play (.call i (.check window))).1 = some (.winner (.ok winner))) :
    winner = (g.holder? k).getD (g.claimant i).id := by
  obtain ⟨c, s, -, -, hchecked⟩ := exists_checked hg h
  rw [winner_of_checked hchecked, hg.key i]

theorem isDuplicate_of_play (hg : g.Fair k)
    (h : (g.play (.call i (.check window))).1 = some (.winner (.ok winner))) :
    ((g.play (.call i (.check window))).2.claimant i).isDuplicate =
      .ok (decide (winner ≠ (g.claimant i).id)) := by
  obtain ⟨c, s, hplay, hsteady, hchecked⟩ := exists_checked hg h
  simp only [hplay, Function.update_self]
  cases hchecked with
  | answered => rfl

theorem text?_of_play (hg : g.Fair k)
    (h : (g.play (.call i (.check window))).1 = some (.winner (.ok winner))) :
    (g.play (.call i (.check window))).2.holder? k = some winner ∧
    ∀ config, ((g.play (.call i (.check window))).2.claimant i).baselines.get? config =
      if (g.claimant i).locations.contains config = true then
        text? g.site.clock (k.baseline config) (g.play (.call i (.check window))).2.site.store.entries
      else none := by
  obtain ⟨c, s, hplay, hsteady, hchecked⟩ := exists_checked hg h
  simp only [hplay, Function.update_self]
  cases hchecked with
  | answered _ baselines hentries hwinner hbaselines =>
    rw [hg.key i] at hwinner hbaselines
    rw [holder?, hsteady.clock, hwinner]
    exact ⟨rfl, hbaselines⟩

theorem live?_of_play {r : Record} {v : String} (hg : g.Fair k)
    (h : (g.play (.call i (.check window))).1 = some (.winner (.ok winner)))
    (hoffered : (g.claimant i).offered? r = some v) (hnone : g.live? (r.name k) = none) :
    (g.play (.call i (.check window))).2.live? (r.name k) =
      some ⟨.text v, deadline g.site.clock window⟩ := by
  obtain ⟨c, s, hplay, hsteady, hchecked⟩ := exists_checked hg h
  rw [hplay, live?, hsteady.clock]
  rw [← hg.key i] at hnone ⊢
  cases hchecked with
  | answered _ baselines hentries hwinner hbaselines =>
    rw [hentries]
    exact Contact.live?_claim_of_offered window hnone hoffered

section

variable {turns : List (Turn ι)} {v : String} {x : Option Instant}

/-- A live text is there when a later check has been answered, until its time is over or a release
succeeds. -/
theorem text?_of_later {name : String} (i : ι) (window : Duration) (hg : g.Fair k)
    (hlive : g.live? name = some ⟨.text v, x⟩) (hun : g.Unreleased turns)
    (hx : Entry.isLive ⟨.text v, x⟩ (g.after turns).site.clock = true) :
    text? (g.after turns).site.clock name
      ((g.after turns).play (.call i (.check window))).2.site.store.entries = some v := by
  have hhonest := (hg.after turns).honest
  have hlater := live?_after hg.honest hlive hun hx
  obtain ⟨r, c, s, hplay, hsteady, -, -⟩ := play_check hhonest i window
  have hstill : Entry.isLive ⟨.text v, x⟩
      ((g.after turns).play (.call i (.check window))).2.site.clock = true := by
    rw [hplay, hsteady.clock]
    exact hx
  have hkept := live?_play hhonest hlater (fun _ h ↦ (by cases h)) hstill
  rw [hplay, live?, hsteady.clock] at hkept
  rw [hplay]
  exact text?_of_live? hkept

theorem winner_of_later (hg : g.Fair k) (hlive : g.live? k.text = some ⟨.text v, x⟩)
    (hun : g.Unreleased turns)
    (hx : Entry.isLive ⟨.text v, x⟩ (g.after turns).site.clock = true)
    (h : ((g.after turns).play (.call i (.check window))).1 = some (.winner (.ok winner))) :
    winner = ⟨v⟩ := by
  have hafter := hg.after turns
  have htext := text?_of_later i window hg hlive hun hx
  have hholder := (text?_of_play hafter h).1
  obtain ⟨c, s, hplay, hsteady, -⟩ := exists_checked hafter h
  rw [hplay] at htext hholder
  rw [holder?, hsteady.clock, htext] at hholder
  exact (Option.some.inj hholder).symm

theorem baseline_of_later {config : String} (hg : g.Fair k)
    (hlive : g.live? (k.baseline config) = some ⟨.text v, x⟩) (hun : g.Unreleased turns)
    (hx : Entry.isLive ⟨.text v, x⟩ (g.after turns).site.clock = true)
    (h : ((g.after turns).play (.call i (.check window))).1 = some (.winner (.ok winner)))
    (hconfig : ((g.after turns).claimant i).locations.contains config = true) :
    (((g.after turns).play (.call i (.check window))).2.claimant i).baselines.get? config =
      some v := by
  have hbaselines := (text?_of_play (hg.after turns) h).2 config
  rw [hbaselines, if_pos hconfig]
  exact text?_of_later i window hg hlive hun hx

end

/-- One instance is elected, and one baseline for every config. -/
theorem check_elects {start : Contest ι} (hstart : start.Opens k) (turns : List (Turn ι)) (i : ι)
    (window : Duration) :
    let g := start.after turns
    let checked := g.play (.call i (.check window))
    (g.site.refusal? .batch = none → ∃ winner, checked.1 = some (.winner (.ok winner))) ∧
    ∀ winner, checked.1 = some (.winner (.ok winner)) →
      winner = (g.holder? k).getD (start.claimant i).id ∧
      (checked.2.claimant i).isDuplicate = .ok (decide (winner ≠ (start.claimant i).id)) ∧
      ∀ later j window' winner', checked.2.Unreleased later →
        (checked.2.after later).site.clock.nanos <
          g.site.clock.nanos + max window.nanos minTtl.nanos →
        let again := (checked.2.after later).play (.call j (.check window'))
        again.1 = some (.winner (.ok winner')) →
        (g.live? k.text = none → winner' = winner ∧
          (again.2.claimant j).isDuplicate = .ok (decide ((start.claimant j).id ≠ winner))) ∧
        ∀ config location, (start.claimant i).locations.get? config = some location →
          g.live? (k.baseline config) = none →
          (start.claimant j).locations.contains config = true →
          (again.2.claimant j).baselines.get? config = some location := by
  intro g checked
  have hg : g.Fair k := hstart.fair.after turns
  have hsame := (after_alike hstart.honest turns).1 i
  refine ⟨exists_winner_of_play hg i window, ?_⟩
  intro winner hwinner
  have helected := winner_of_play hg hwinner
  have hduplicate := isDuplicate_of_play hg hwinner
  rw [hsame.id] at helected hduplicate
  refine ⟨helected, hduplicate, ?_⟩
  intro later j window' winner' hun htime again hagain
  have hafter : checked.2.Fair k := hg.play _
  have hlater := ((after_alike hstart.honest turns).1 j).trans
    (((play_alike hg.honest _).1 j).trans ((after_alike hafter.honest later).1 j))
  -- What this check writes lasts for its window, whatever the others write meanwhile.
  have hlast : ∀ v, Entry.isLive ⟨.text v, deadline g.site.clock window⟩
      (checked.2.after later).site.clock = true := fun v ↦ isLive_deadline htime
  constructor
  · intro hnone
    have hnew : checked.2.live? k.text = _ := live?_of_play (r := .holder) hg hwinner rfl hnone
    have hwins : winner' = winner := by
      rw [winner_of_later hafter hnew hun (hlast _) hagain, helected,
        holder?_of_live?_eq_none hnone, ← hsame.id]
      rfl
    have hagain' := isDuplicate_of_play (hafter.after later) hagain
    have hcomm : decide (winner ≠ (start.claimant j).id) =
        decide ((start.claimant j).id ≠ winner) := decide_eq_decide.mpr ne_comm
    rw [hwins, hlater.id, hcomm] at hagain'
    exact ⟨hwins, hagain'⟩
  · intro config location hlocation hnone hcontains
    have hoffered : (g.claimant i).offered? (.baseline config) = some location := by
      rw [← hlocation, ← hsame.locations]
      rfl
    have hnew : checked.2.live? (k.baseline config) = _ :=
      live?_of_play (r := .baseline config) hg hwinner hoffered hnone
    rw [← hlater.locations] at hcontains
    exact baseline_of_later hafter hnew hun (hlast _) hagain hcontains

set_option maxRecDepth 10000 in
/-- The second of two instances is a duplicate of the first, and is told the position that the first
had seen. -/
theorem check_elects_twins :
    let checked := twins.play (.call false (.check (.ofMillis 1000)))
    let again := (checked.2.after [.wait (.ofMillis 999)]).play (.call true (.check (.ofMillis 5)))
    again.1 = some (.winner (.ok ⟨"a"⟩)) ∧ (again.2.claimant true).isDuplicate = .ok true ∧
      (again.2.claimant true).baselines.get? "main" = some "0/1" := by
  have h := ((check_elects opens_twins [] false (.ofMillis 1000)).2 ⟨"a"⟩ rfl).2.2
    [.wait (.ofMillis 999)] true (.ofMillis 5) ⟨"a"⟩ (fun i hi ↦ by simp [history] at hi)
    (by decide +kernel) rfl
  exact ⟨rfl, (h.1 rfl).2, h.2 "main" "0/1" rfl rfl rfl⟩

end Contest

end UniqueJobs
