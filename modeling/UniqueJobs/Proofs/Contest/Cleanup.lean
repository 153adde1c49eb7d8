import UniqueJobs.Proofs.Contest.Basic

/-!
Releases leave nothing behind. Main statement: `release_clears`, that the config of every position
record is known to the store as long as the record lasts, so that a release by any claimant reaches
all records of the key, and the next one finds nothing to do.
-/

namespace UniqueJobs

open Entries

theorem Record.exists_of_mem_doomed {k : JobKey} {args : List String} {set : NameSet}
    {name : String} (h : name ∈ doomed k.text k.flag k.configs args set) :
    ∃ r : Record, name = r.name k := by
  rcases mem_doomed.mp h with h | ⟨config, -, h⟩
  · simp only [List.mem_cons, List.not_mem_nil, or_false] at h
    rcases h with rfl | rfl | rfl
    · exact ⟨.holder, rfl⟩
    · exact ⟨.flag, rfl⟩
    · exact ⟨.configs, rfl⟩
  · simp only [positionKeys, List.mem_cons, List.not_mem_nil, or_false] at h
    rcases h with rfl | rfl
    · exact ⟨.baseline config, rfl⟩
    · exact ⟨.latest config, rfl⟩

theorem Contact.live?_release_of_eq_none {c : Claimant} {now : Instant} {es : Entries}
    (h : ∀ r : Record, es.live? now (r.name c.key) = none) (name : String) :
    live? now name (Contact.release.effect c now es) = es.live? now name := by
  have hconfigs : es.live? now c.key.configs = none := h .configs
  have hset : registered (es.live? now c.key.configs) = some .empty := by
    rw [hconfigs]
    rfl
  have hlive := (release_of_registered_eq_some c.key.text c.key.flag c.locations.keys hset).2 name
  refine hlive.trans ?_
  by_cases hdoomed : name ∈ doomed c.key.text c.key.flag c.key.configs c.locations.keys .empty
  · obtain ⟨r, rfl⟩ := Record.exists_of_mem_doomed hdoomed
    rw [if_pos hdoomed, h r]
  · rw [if_neg hdoomed]

namespace Contest

variable {ι : Type} [DecidableEq ι] {k : JobKey} {g : Contest ι} {i : ι}

theorem release_of_refusal_eq_none (hg : g.Fair k) (h : g.site.refusal? .run = none) :
    (g.play (.call i .release)).1 = some (.done (.ok ())) := by
  obtain ⟨r, s, hplay, -, -, hanswer⟩ := play_release g i
  have hsound := hg.sound
  rw [← hg.key i] at hsound
  rw [hplay, hanswer hsound h]

theorem live?_of_release (hg : g.Fair k)
    (h : (g.play (.call i .release)).1 = some (.done (.ok ()))) (r : Record) :
    (g.play (.call i .release)).2.live? (r.name k) = none := by
  obtain ⟨answer, s, hplay, hsteady, hreleased, -⟩ := play_release g i
  obtain rfl : answer = .ok () := by simpa [hplay] using h
  have hsound := hg.sound
  rw [← hg.key i] at hsound
  rw [hplay, live?, hsteady.clock, ← hg.key i]
  cases hreleased with
  | done hentries =>
    rw [hentries]
    exact (hsound.release_eq_none _).2 r

theorem live?_of_release_of_eq_none (hg : g.Fair k) (h : ∀ r : Record, g.live? (r.name k) = none)
    (name : String) : (g.play (.call i .release)).2.live? name = g.live? name := by
  obtain ⟨answer, s, hplay, hsteady, hreleased, -⟩ := play_release g i
  rw [hplay, live?, hsteady.clock]
  cases hreleased with
  | failed e hlive => exact hlive name
  | done hentries =>
    have hnone : ∀ r : Record, g.live? (r.name (g.claimant i).key) = none := by
      intro r
      rw [hg.key i]
      exact h r
    rw [hentries]
    exact Contact.live?_release_of_eq_none hnone name

/-- While a position record is live, its config is in the set of configs, which lasts as long; a
release that succeeds leaves no record, and another one then changes nothing. -/
theorem release_clears {start : Contest ι} (hstart : start.Opens k) (turns : List (Turn ι)) :
    let g := start.after turns
    (∀ config e, g.live? (k.baseline config) = some e ∨ g.live? (k.latest config) = some e →
      ∃ set x, g.live? k.configs = some ⟨.names set, x⟩ ∧ set.contains config = true ∧
        Outlasts x e.expiresAt) ∧
    ∀ i, let released := g.play (.call i .release)
      (g.site.refusal? .run = none → released.1 = some (.done (.ok ()))) ∧
      (released.1 = some (.done (.ok ())) →
        (∀ r : Record, released.2.live? (r.name k) = none) ∧
        ∀ j, let again := released.2.play (.call j .release)
          (released.2.site.refusal? .run = none → again.1 = some (.done (.ok ()))) ∧
          ∀ name, again.2.live? name = released.2.live? name) := by
  intro g
  have hg : g.Fair k := hstart.fair.after turns
  constructor
  · intro config e he
    rcases he with he | he
    · exact hg.sound.tracked (.baseline config) config e rfl he
    · exact hg.sound.tracked (.latest config) config e rfl he
  · intro i released
    have hafter : released.2.Fair k := hg.play _
    refine ⟨release_of_refusal_eq_none hg, ?_⟩
    intro hdone
    have hnone := live?_of_release hg hdone
    refine ⟨hnone, ?_⟩
    intro j again
    exact ⟨release_of_refusal_eq_none hafter, live?_of_release_of_eq_none hafter hnone⟩

set_option maxRecDepth 10000 in
/-- An instance that reported no position of its own releases what another one reported. -/
theorem release_clears_twins :
    let g := twins.after [.call false (.check (.ofMillis 1000)),
      .call false (.offerLocations fun _ location baseline ↦ Lsn.distance location baseline)]
    let released := g.play (.call true .release)
    (∃ set x, g.live? "k:wal_configs" = some ⟨.names set, x⟩ ∧ set.contains "main" = true ∧
      Outlasts x (some ⟨60_000_000_000⟩)) ∧
    released.1 = some (.done (.ok ())) ∧
    (∀ r : Record, released.2.live? (r.name ⟨"k"⟩) = none) ∧
    (released.2.play (.call false .release)).1 = some (.done (.ok ())) := by
  have h := release_clears opens_twins [.call false (.check (.ofMillis 1000)),
    .call false (.offerLocations fun _ location baseline ↦ Lsn.distance location baseline)]
  have hdone := (h.2 true).2 rfl
  exact ⟨h.1 "main" ⟨.list ["0/1", "0"], some ⟨60_000_000_000⟩⟩ (.inr rfl), (h.2 true).1 rfl,
    hdone.1, (hdone.2 false).1 rfl⟩

end Contest

end UniqueJobs
