import UniqueJobs.Proofs.CommandLine.Inspection
import UniqueJobs.Proofs.Contest.Election
import UniqueJobs.Proofs.Contest.Furthest

/-!
What an operator is shown of a contest, against what its claimants would be told at that moment.
Main statement: `inspection_agrees`.
-/

namespace UniqueJobs

open Entries CommandLine

namespace Contest

variable {ι : Type} {k : JobKey} {g : Contest ι} {configs : List String}

/-- An inspection says what is live, and what a claimant of the key would be told. -/
structure Shows (g : Contest ι) (k : JobKey) (configs : List String) (i : Inspection) : Prop where
  key : i.key = k
  holder : (g.live? k.text).map (·.content) = i.winner.map .text
  checked : ∀ winner, i.winner = some winner → ∀ c : Claimant, c.key = k → ∀ window, ∃ c' s,
    Id.run ((c.check Site.recordStore Site.emit window).run g.site) = ((.ok ⟨winner⟩, c'), s)
  flagged : i.flagged = true ↔ g.live? k.flag ≠ none
  baseline : ∀ config ∈ configs, ∃ v, i.baselines.get? config = some v ∧
    (g.live? (k.baseline config)).map (·.content) = v.map .text
  latest : ∀ config ∈ configs, ∃ v, i.latest.get? config = some v ∧ ∀ c : Claimant, c.key = k →
    c.latest = none → c.locations.contains config = true → ∃ d c' s,
      Id.run ((c.readLatest Site.recordStore).run g.site) = ((.ok d, c'), s) ∧ d.get? config = v
  baselineConfigs : ∀ config, i.baselines.contains config = true ↔ config ∈ configs
  latestConfigs : ∀ config, i.latest.contains config = true ↔ config ∈ configs

theorem eq_of_map_text {v v' : Option String} (h : v.map Content.text = v'.map .text) : v = v' :=
  Option.map_injective (fun _ _ heq ↦ Content.text.inj heq) h

theorem content_of_textOrNone {name : String}
    (h : TextOrNone g.site.clock g.site.store.entries name) :
    (g.live? name).map (·.content) = (text? g.site.clock name g.site.store.entries).map .text := by
  rw [text?, live?]
  cases hl : g.site.store.entries.live? g.site.clock name with
  | none => rfl
  | some e =>
    obtain ⟨content, x⟩ := e
    obtain ⟨s, rfl⟩ := h _ hl
    rfl

theorem run_check_of_holder (hg : g.Fair k) (hrefusal : g.site.refusal? .batch = none)
    {winner : String} (h : text? g.site.clock k.text g.site.store.entries = some winner)
    {c : Claimant} (hc : c.key = k) (window : Duration) :
    ∃ c' s, Id.run ((c.check Site.recordStore Site.emit window).run g.site) =
      ((.ok ⟨winner⟩, c'), s) := by
  have hsound := hg.sound
  rw [← hc] at hsound h
  obtain ⟨⟨r, c'⟩, calls, s, hrun, -, hchecked, hanswer⟩ :=
    (Site.does_check (Site.serves_recordStore (m := Id)) hg.honest window).exists_run
  obtain ⟨found, rfl⟩ := hanswer hsound hrefusal
  refine ⟨c', s, ?_⟩
  rw [hrun, winner_of_checked hchecked, holder?, h]
  rfl

theorem run_readLatest_of_fresh (hg : g.Fair k) (hrefusal : g.site.refusal? .batch = none)
    {c : Claimant} (hc : c.key = k) (hfresh : c.latest = none) {config : String}
    (hconfig : c.locations.contains config = true) :
    ∃ d c' s, Id.run ((c.readLatest Site.recordStore).run g.site) = ((.ok d, c'), s) ∧
      d.get? config = furthest? g.site.clock (k.latest config) g.site.store.entries := by
  have hsound := hg.sound
  rw [← hc] at hsound ⊢
  obtain ⟨⟨r, c'⟩, calls, s, hrun, d, hr, hget⟩ :=
    (does_readLatest_of_fresh hg.honest hfresh hsound hrefusal).exists_run
  obtain rfl : r = .ok d := hr
  refine ⟨d, c', s, hrun, ?_⟩
  rw [hget, if_pos hconfig]

/-- The batch of an inspection is answered, and changes nothing that is live. -/
theorem run_inspect (hg : g.Fair k) (hrefusal : g.site.refusal? .batch = none)
    (configs : List String) :
    ∃ i s, Id.run ((inspect Site.recordStore k configs).run g.site) = (.ok i, s) ∧
      (∀ name, s.store.entries.live? s.clock name = g.live? name) ∧
      Inspection.Reports (found? g.site.clock g.site.store.entries) k configs i := by
  have hreadable : ∀ r ∈ Inspection.requests k configs,
      Readable g.site.clock g.site.store.entries r := by
    intro r hr
    rw [Inspection.requests_eq_reading] at hr
    obtain ⟨record, hrecord, rfl⟩ := List.mem_map.mp hr
    refine Claimant.readable_of_allFit hg.sound.fit ?_
    rintro rfl
    simp at hrecord
  obtain ⟨i, hi, hreports⟩ :=
    Inspection.exists_reports (found? g.site.clock g.site.store.entries) k configs
  let called := g.site.call .batch (carryOutAll g.site.clock (Inspection.requests k configs))
  obtain ⟨hfst, hentries⟩ : called.1 = _ ∧ called.2.store.entries = _ :=
    Site.call_of_refusal_eq_none hrefusal
  refine ⟨i, called.2, ?_, fun name ↦ ?_, hreports⟩
  · rw [inspect, StateT.run_bind, Site.run_recordStore_batch _ hg.honest, pure_bind, hfst,
      carryOutAll_of_readable hreadable]
    simp only [hi]
    rfl
  · have hclock : called.2.clock = g.site.clock := Site.steady_call.clock
    rw [hentries, hclock]
    exact live?_carryOutAll_of_reads (fun r hr ↦ (hreadable r hr).reads) _ name

theorem shows_of_reports (hg : g.Fair k) (hrefusal : g.site.refusal? .batch = none)
    {i : Inspection} (h : i.Reports (found? g.site.clock g.site.store.entries) k configs) :
    g.Shows k configs i where
  key := h.key
  holder := by
    rw [h.winner]
    exact content_of_textOrNone (Claimant.readable_of_allFit hg.sound.fit (r := .holder) (by simp))
  checked winner hwinner c hc window := by
    rw [h.winner] at hwinner
    exact run_check_of_holder hg hrefusal hwinner hc window
  flagged := by
    have hcontent := content_of_textOrNone
      (Claimant.readable_of_allFit hg.sound.fit (r := .flag) (by simp))
    have hsome := congrArg Option.isSome hcontent
    rw [Option.isSome_map, Option.isSome_map] at hsome
    rw [h.flagged, ← Option.isSome_iff_ne_none]
    exact Eq.congr_left hsome.symm
  baseline config hconfig := by
    refine ⟨_, (h.baseline config).trans (if_pos hconfig), ?_⟩
    exact content_of_textOrNone
      (Claimant.readable_of_allFit hg.sound.fit (r := .baseline config) (by simp))
  latest config hconfig :=
    ⟨_, (h.latest config).trans (if_pos hconfig), fun c hc hfresh hcarries ↦
      run_readLatest_of_fresh hg hrefusal hc hfresh hcarries⟩
  baselineConfigs config := by
    rw [Dictionary.contains, h.baseline]
    split <;> simp_all
  latestConfigs config := by
    rw [Dictionary.contains, h.latest]
    split <;> simp_all

/-- The operator asks for the key that the instances of a job have, and is shown what they would be
told: who holds the window, whether a duplicate was dropped, and for each config asked for, however
often, the baseline and the furthest location. -/
theorem inspection_agrees :
    (∀ (q : JobQuery) (settings : Settings) (worker : Option Worker) (job : Job),
      Job.argsOfText? q.args = some job.args → job.worker = q.worker → job.queue = q.queue →
      job.key = none →
      q.key settings.keyspace = .ok (Claimant.ofJob settings worker job).1.key) ∧
    ∀ (ι : Type) [DecidableEq ι] (start : Contest ι) (k : JobKey), start.Opens k →
      ∀ (turns : List (Turn ι)) (configs : List String),
        let g := start.after turns
        g.site.refusal? .batch = none →
        ∃ i s, Id.run ((inspect Site.recordStore k configs).run g.site) = (.ok i, s) ∧
          (∀ name, s.store.entries.live? s.clock name = g.live? name) ∧ g.Shows k configs i := by
  constructor
  · intro q settings worker job hargs hworker hqueue hkey
    rw [JobQuery.key, hargs, Claimant.ofJob, Job.identify, hkey, hworker, hqueue]
  · intro ι _ start k hopens turns configs g hrefusal
    have hg : g.Fair k := hopens.fair.after turns
    obtain ⟨i, s, hrun, hlive, hreports⟩ := run_inspect hg hrefusal configs
    exact ⟨i, s, hrun, hlive, shows_of_reports hg hrefusal hreports⟩

set_option maxRecDepth 10000 in
/-- One of two instances has claimed the window and reported its location; the other would be told
what the operator is shown. -/
theorem inspection_agrees_twins :
    let q : JobQuery := ⟨"w", defaultQueue, "[true, 1]", []⟩
    let job := Job.new ⟨"a"⟩ "w" ((Job.argsOfText? q.args).getD [])
    let turns : List (Turn Bool) := [.call true (.check (.ofMillis 1000)),
      .call true (.offerLocations fun _ _ _ ↦ .ok 0)]
    let g := twins.after turns
    q.key "jobguard" = .ok (Claimant.ofJob .default none job).1.key ∧
    ∃ i s, Id.run ((inspect Site.recordStore ⟨"k"⟩ ["main", "spare", "main"]).run g.site) =
        (.ok i, s) ∧
      i.winner = some "b" ∧ i.flagged = false ∧ i.baselines.get? "main" = some (some "0/2") ∧
      i.baselines.get? "spare" = some none ∧
      ∃ d c s', Id.run (((twins.claimant false).readLatest Site.recordStore).run g.site) =
        ((.ok d, c), s') ∧ i.latest.get? "main" = some (d.get? "main") := by
  intro q job turns g
  have hread : Job.argsOfText? q.args = some job.args := by
    have hsome : (Job.argsOfText? q.args).isSome = true := by decide +kernel
    obtain ⟨args, hargs⟩ := Option.isSome_iff_exists.mp hsome
    simp only [job, Job.new, hargs, Option.getD_some]
  obtain ⟨i, s, hrun, -, hshows⟩ := inspection_agrees.2 Bool twins ⟨"k"⟩ opens_twins turns
    ["main", "spare", "main"] (by decide +kernel)
  refine ⟨inspection_agrees.1 q .default none job hread rfl rfl rfl, i, s, hrun, ?_, ?_, ?_, ?_, ?_⟩
  · have hholder : (g.live? "k").map (·.content) = (some "b").map .text := by decide +kernel
    exact (eq_of_map_text (hholder.symm.trans hshows.holder)).symm
  · have hnone : g.live? (JobKey.flag ⟨"k"⟩) = none := by decide +kernel
    rw [← Bool.not_eq_true, hshows.flagged]
    exact fun h ↦ h hnone
  · have hmain : (g.live? (JobKey.baseline ⟨"k"⟩ "main")).map (·.content) =
        (some "0/2").map .text := by decide +kernel
    obtain ⟨v, hv, hbaseline⟩ := hshows.baseline "main" (by simp)
    rw [hv, eq_of_map_text (hmain.symm.trans hbaseline)]
  · have hspare : (g.live? (JobKey.baseline ⟨"k"⟩ "spare")).map (·.content) =
        (none : Option String).map .text := by decide +kernel
    obtain ⟨v, hv, hbaseline⟩ := hshows.baseline "spare" (by simp)
    rw [hv, eq_of_map_text (hspare.symm.trans hbaseline)]
  · obtain ⟨v, hv, hlatest⟩ := hshows.latest "main" (by simp)
    obtain ⟨d, c, s', hread, hd⟩ := hlatest (twins.claimant false) rfl rfl rfl
    exact ⟨d, c, s', hread, hv.trans (congrArg some hd.symm)⟩

end Contest

end UniqueJobs
