import UniqueJobs.Proofs.Journal.Holder

/-!
What remains where nothing is released. A text that is live stays live up to its expiry, at the notes
of a chain and at every instant after them, until the records of the key are released.
-/

namespace UniqueJobs

open Entries

def Note.Releases (k : JobKey) (n : Note) : Prop :=
  ∃ caller args failure before after, n = .called caller
    (.run .release [k.text, k.flag, k.configs] args) failure before after

variable {k : JobKey} {M : Measures} {caller : Caller} {n : Note} {s s' : Site} {notes : List Note}
  {name v : String} {x : Option Instant}

theorem Contact.releases_release (caller : Caller) (c : Claimant) (s : Site) :
    (Contact.release.note caller c s).Releases c.key :=
  ⟨_, _, _, _, _, rfl⟩

theorem Note.not_releases_of_isMark (h : n.isMark = true) : ¬ n.Releases k := by
  rintro ⟨_, _, _, _, _, rfl⟩
  cases h

theorem Note.not_releases_of_headline (h : n.headline.isCall = false) : ¬ n.Releases k := by
  rintro ⟨_, _, _, _, _, rfl⟩
  cases h

theorem Touch.not_releases (h : Touch k M caller n) : ¬ n.Releases k := by
  cases h with
  | @intro c contact s hkey hrelease _ =>
    rintro ⟨_, _, _, _, _, heq⟩
    have hcall := (Note.called.inj heq).2.1
    cases contact with
    | release => exact hrelease rfl
    | claim | advance | readLatest | setFlag | readFlag => cases hcall

theorem Move.clock_le (h : Move k M n) : n.before.clock.nanos ≤ n.after.clock.nanos := by
  cases h with
  | mark hmark => exact Nat.le_of_eq (by rw [Note.after_eq_before hmark])
  | wait => exact Nat.le_add_right _ _
  | touch h =>
    cases h
    exact Nat.le_refl _
  | release => exact Nat.le_refl _

theorem Chain.clock_le (h : Chain (Move k M) s notes s') : s.clock.nanos ≤ s'.clock.nanos := by
  induction h with
  | rest hs => exact Nat.le_of_eq (by rw [hs.clock])
  | step hs hn _ ih =>
    rw [← hs.clock]
    exact Nat.le_trans hn.clock_le ih

/-- The two clocks go on alike. -/
theorem Chain.clocks (h : Chain (Move k M) s notes s') :
    s'.wall + s.clock.nanos = s.wall + s'.clock.nanos := by
  induction h with
  | rest hstill => rw [hstill.wall, hstill.clock]
  | @step n _ _ _ hstill hn _ ih =>
    have hmove : n.after.wall + n.before.clock.nanos = n.before.wall + n.after.clock.nanos := by
      cases hn with
      | mark hmark => rw [Note.after_eq_before hmark]
      | @wait s d =>
        simp only [Note.after, Note.before, Site.advance]
        omega
      | touch h =>
        cases h
        rfl
      | release => rfl
    rw [← hstill.wall, ← hstill.clock]
    omega

theorem Move.exists_later (h : Move k M n) : ∃ d, n.before.Later d n.after := by
  cases h with
  | mark hmark =>
    rw [Note.after_eq_before hmark]
    exact ⟨0, (Site.Like.refl _).later⟩
  | @wait s d => exact ⟨d.nanos, s.later_advance d⟩
  | touch h =>
    cases h
    exact ⟨0, (Site.like_met _ _ _).later⟩
  | release => exact ⟨0, (Site.like_met _ _ _).later⟩

theorem Chain.exists_later (h : Chain (Move k M) s notes s') : ∃ d, s.Later d s' := by
  induction h with
  | rest hstill => exact ⟨0, hstill.like.later⟩
  | step hstill hn _ ih =>
    obtain ⟨d, hmove⟩ := hn.exists_later
    obtain ⟨d', hrest⟩ := ih
    exact ⟨0 + d + d', (hstill.like.later.trans hmove).trans hrest⟩

theorem Chain.calm (h : Chain (Move k M) s notes s') (hs : s.Calm) : s'.Calm := by
  obtain ⟨d, hlater⟩ := h.exists_later
  exact hlater.calm hs

theorem Move.live?_text (h : Move k M n) (hrelease : ¬ n.Releases k)
    (hlive : n.before.store.entries.live? n.before.clock name = some ⟨.text v, x⟩)
    (hx : Entry.isLive ⟨.text v, x⟩ n.after.clock = true) :
    n.after.store.entries.live? n.after.clock name = some ⟨.text v, x⟩ := by
  cases h with
  | mark hmark => rwa [Note.after_eq_before hmark]
  | @wait s d =>
    have hle : s.clock.nanos ≤ (s.advance d).clock.nanos := Nat.le_add_right _ _
    change s.store.entries.live? (s.advance d).clock name = _
    rw [live?_of_le hle, Option.filter_eq_some_iff]
    exact ⟨hlive, hx⟩
  | touch htouch =>
    cases htouch with
    | @intro c contact s _ hne _ => exact Contact.keepsTexts c _ _ hne name v x hlive
  | release hkey =>
    subst hkey
    exact absurd (Contact.releases_release _ _ _) hrelease

theorem Chain.live?_text (h : Chain (Move k M) s notes s')
    (hreleases : ∀ n ∈ notes, ¬ n.Releases k)
    (hlive : s.store.entries.live? s.clock name = some ⟨.text v, x⟩)
    (hx : Entry.isLive ⟨.text v, x⟩ s'.clock = true) :
    s'.store.entries.live? s'.clock name = some ⟨.text v, x⟩ := by
  induction h with
  | rest hs => rwa [hs.clock, hs.store]
  | step hs hn hrest ih =>
    obtain ⟨hrelease, hreleases⟩ := List.forall_mem_cons.mp hreleases
    rw [← hs.clock, ← hs.store] at hlive
    exact ih hreleases (hn.live?_text hrelease hlive (Entry.isLive_mono hrest.clock_le hx)) hx

/-- The site that some notes have led to. -/
def Site.past (s : Site) (notes : List Note) : Site := notes.foldl (fun _ n ↦ n.after) s

theorem Chain.still_past {Q : Note → Prop} (h : Chain Q s notes s') : (s.past notes).Still s' := by
  induction h with
  | rest hs => exact hs
  | step _ _ _ ih => exact ih

/-- Only a release takes a text away at an instant before its expiry. -/
theorem Chain.live?_past (h : Chain (Move k M) s notes s')
    (hreleases : ∀ n ∈ notes, ¬ n.Releases k)
    (hlive : s.store.entries.live? s.clock name = some ⟨.text v, x⟩) {u : Instant}
    (hu : (s.past notes).clock.nanos ≤ u.nanos) (hx : Entry.isLive ⟨.text v, x⟩ u = true) :
    (s.past notes).store.entries.live? u name = some ⟨.text v, x⟩ := by
  have hstill := h.still_past
  rw [← hstill.clock] at hu
  rw [← hstill.store, live?_of_le hu, Option.filter_eq_some_iff]
  exact ⟨h.live?_text hreleases hlive (Entry.isLive_mono hu hx), hx⟩

theorem Site.past_append_cons (s : Site) (first span : List Note) (n : Note) :
    s.past (first ++ n :: span) = n.after.past span := by
  rw [past, past, List.foldl_append, List.foldl_cons]

theorem Chain.exists_later_past (h : Chain (Move k M) s notes s') (d : Duration) :
    ∃ e, s.Later e ((s.past notes).advance d) := by
  obtain ⟨e, hlater⟩ := h.exists_later
  have hpast := hlater.trans h.still_past.symm.like.later
  exact ⟨_, hpast.trans ((s.past notes).later_advance d)⟩

theorem Chain.sound_past (h : Chain (Move k M) s notes s') (hs : Sound k s.clock s.store.entries)
    (d : Duration) : Sound k ((s.past notes).advance d).clock
      ((s.past notes).advance d).store.entries := by
  have hsound := h.sound hs
  rw [h.still_past.clock, h.still_past.store] at hsound
  exact hsound.wait (Nat.le_add_right _ _)

end UniqueJobs
