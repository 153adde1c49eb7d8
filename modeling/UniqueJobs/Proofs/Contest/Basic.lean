import Mathlib.Logic.Function.Basic
import UniqueJobs.Proofs.Site.Claimant

/-!
Runs of any number of claimants over the store of one site. They make their calls in any order, while
the clocks go on and the store is switched off and on or told to refuse calls. `Fair` is what holds
of a contest that began with an empty store (`Fair.after`), and `live?_after` says that a live text
stays until it expires or a release succeeds.
-/

namespace UniqueJobs

open Entries

namespace Contest

inductive Call
  | check (window : Duration)
  /-- Offer the locations, `measure` being how they are measured this time. -/
  | offerLocations (measure : String → String → String → Except LsnError Int64)
  /-- Offer some locations, which is a part of `offerLocations` that others let through. -/
  | offer (locations : List (String × String))
      (measure : String → String → String → Except LsnError Int64)
  | readLatest
  | setFlag (ttl : Duration)
  | flagged
  | release

inductive Answer
  | winner (r : Except ClaimError JobId)
  | latest (r : Except ClaimError (Dictionary String))
  | flag (r : Except ClaimError Bool)
  | done (r : Except ClaimError Unit)

def Call.act (c : Claimant) : Call → StateT Site Id (Answer × Claimant)
  | check window => do
    let (r, c) ← c.check Site.recordStore Site.emit window
    pure (.winner r, c)
  | offerLocations measure => do
    let r ← c.offerLocations Site.recordStore
      fun config location baseline ↦ pure (measure config location baseline)
    pure (.done r, c)
  | offer locations measure => do
    let r ← c.offer Site.recordStore
      (fun config location baseline ↦ pure (measure config location baseline)) locations
    pure (.done r, c)
  | readLatest => do
    let (r, c) ← c.readLatest Site.recordStore
    pure (.latest r, c)
  | setFlag ttl => do
    let r ← c.setFlag Site.recordStore ttl
    pure (.done r, c)
  | flagged => do
    let r ← c.flagged Site.recordStore
    pure (.flag r, c)
  | release => do
    let r ← c.release Site.recordStore Site.emit
    pure (.done r, c)

end Contest

/-- Claimants over one site, whose key they share or not. -/
structure Contest (ι : Type) where
  site : Site
  claimant : ι → Claimant

inductive Contest.Turn (ι : Type)
  | call (i : ι) (call : Call)
  | wait (d : Duration)
  | switch (available : Bool)
  /-- After `skip` more calls of the kind, one is refused. -/
  | fail (kind : CallKind) (skip : Nat) (e : StoreError)

namespace Contest

variable {ι : Type} [DecidableEq ι]

def play (g : Contest ι) : Turn ι → Option Answer × Contest ι
  | .call i call =>
    let ((answer, c), site) := Id.run ((call.act (g.claimant i)).run g.site)
    (some answer, ⟨site, Function.update g.claimant i c⟩)
  | .wait d => (none, { g with site := g.site.advance d })
  | .switch available =>
    (none, { g with site.store := g.site.store.setAvailable available })
  | .fail kind skip e => (none, { g with site.cues := g.site.cues.push kind skip (.fail e) })

def after (g : Contest ι) : List (Turn ι) → Contest ι
  | [] => g
  | t :: rest => (g.play t).2.after rest

def history (g : Contest ι) : List (Turn ι) → List (Turn ι × Option Answer)
  | [] => []
  | t :: rest => (t, (g.play t).1) :: (g.play t).2.history rest

/-- Does no release succeed in the turns? -/
def Unreleased (g : Contest ι) (turns : List (Turn ι)) : Prop :=
  ∀ i, (Turn.call i .release, some (Answer.done (.ok ()))) ∉ g.history turns

def live? (g : Contest ι) (name : String) : Option Entry :=
  g.site.store.entries.live? g.site.clock name

/-- Nobody has called yet: the store is empty, and claimants of one key stand by. -/
structure Opens (k : JobKey) (g : Contest ι) : Prop where
  empty : g.site.store.entries = .empty
  honest : g.site.Honest
  key : ∀ i, (g.claimant i).key = k

def twins : Contest Bool where
  site := .opened 0 ⟨0⟩
  claimant b := ⟨.default, "w", none, ⟨if b then "b" else "a"⟩, ⟨"k"⟩,
    Dictionary.empty.insert "main" (if b then "0/2" else "0/1"), none, none, .empty, none⟩

theorem opens_twins : twins.Opens ⟨"k"⟩ where
  empty := rfl
  honest q hq := by cases hq
  key i := rfl

/-- What holds of a contest for one key all along. -/
structure Fair (k : JobKey) (g : Contest ι) : Prop where
  sound : Sound k g.site.clock g.site.store.entries
  honest : g.site.Honest
  key : ∀ i, (g.claimant i).key = k

end Contest

/-- The same instance, whatever the store has told it. -/
structure Claimant.Alike (c c' : Claimant) : Prop where
  id : c'.id = c.id
  key : c'.key = c.key
  locations : c'.locations = c.locations
  settings : c'.settings = c.settings

theorem Claimant.Alike.refl (c : Claimant) : c.Alike c := ⟨rfl, rfl, rfl, rfl⟩

theorem Claimant.Alike.trans {c c' c'' : Claimant} (h : c.Alike c') (h' : c'.Alike c'') :
    c.Alike c'' :=
  ⟨h'.id.trans h.id, h'.key.trans h.key, h'.locations.trans h.locations,
    h'.settings.trans h.settings⟩

theorem Site.Checked.alike {c : Claimant} {window : Duration} {s s' : Site}
    {r : Except ClaimError JobId × Claimant} (h : Checked c window s s' r) : c.Alike r.2 := by
  cases h with
  | failed => exact .refl c
  | answered => exact ⟨rfl, rfl, rfl, rfl⟩

abbrev unnoted : Site → Site → Id Unit := fun _ _ ↦ pure ()

theorem Site.noteAll_unnoted (calls : List (Site × Site)) : noteAll unnoted calls = pure () := by
  induction calls with
  | nil => rfl
  | cons p rest ih => exact ih

theorem Site.Does.exists_run {α : Type} {x : StateT Site Id α} {s : Site}
    {P : α → List (Site × Site) → Site → Prop} (h : Does unnoted x s P) :
    ∃ a calls s', Id.run (x.run s) = (a, s') ∧ P a calls s' := by
  obtain ⟨a, calls, s', hx, hP⟩ := h
  exact ⟨a, calls, s', by rw [hx, noteAll_unnoted]; rfl, hP⟩

/-- Which contacts a call makes. -/
def Contest.Call.Makes : Contest.Call → Contact → Prop
  | .check window, contact => contact = .claim window
  | .offerLocations _, contact | .offer _ _, contact =>
    ∃ config location offset, contact = .advance config location offset
  | .readLatest, contact => contact = .readLatest
  | .setFlag ttl, contact => contact = .setFlag ttl
  | .flagged, contact => contact = .readFlag
  | .release, contact => contact = .release

theorem Contest.Call.eq_release_of_makes {call : Call} (h : call.Makes .release) :
    call = .release := by
  cases call with
  | release => rfl
  | offerLocations | offer =>
    obtain ⟨_, _, _, heq⟩ := h
    cases heq
  | check | readLatest | setFlag | flagged => cases h

/-- Every call is a course of contacts, all of the kind that it makes. -/
theorem Contest.Call.does_act {c : Claimant} {s : Site} (hs : s.Honest) (call : Call) :
    Site.Does unnoted (call.act c) s fun r calls s' ↦
      Site.Course c call.Makes s calls s' ∧ c.Alike r.2 := by
  have hstore : Site.Serves unnoted Site.recordStore := Site.serves_recordStore
  cases call with
  | check window =>
    refine (Site.does_check hstore hs window).map ?_
    intro r calls s' h
    obtain ⟨⟨s₁, rfl, htouches, hr⟩, hchecked, -⟩ := h
    exact ⟨.one htouches hr, hchecked.alike⟩
  | offerLocations measure =>
    refine (Site.does_offerLocations hstore (fun _ _ _ ↦ rfl) c s).map ?_
    intro r calls s' h
    exact ⟨h, .refl c⟩
  | offer locations measure =>
    refine (Site.does_offer hstore (fun _ _ _ ↦ rfl) c locations s).map ?_
    intro r calls s' h
    exact ⟨h, .refl c⟩
  | readLatest =>
    refine (Site.does_readLatest hstore hs).map ?_
    intro r calls s' h
    obtain ⟨hcourse, latest, hlatest⟩ := h
    refine ⟨hcourse, ?_⟩
    simp only [hlatest]
    exact ⟨rfl, rfl, rfl, rfl⟩
  | setFlag ttl =>
    refine (Site.does_setFlag hstore c ttl s).map ?_
    intro r calls s' h
    exact ⟨h, .refl c⟩
  | flagged =>
    refine (Site.does_flagged hstore c s).map ?_
    intro r calls s' h
    exact ⟨h, .refl c⟩
  | release =>
    refine (Site.does_release hstore c s).map ?_
    intro r calls s' h
    obtain ⟨⟨s₁, rfl, htouches, hr⟩, -, -⟩ := h
    exact ⟨.one htouches hr, .refl c⟩

namespace Contest

variable {ι : Type} [DecidableEq ι] {k : JobKey} {g : Contest ι}

theorem play_call {i : ι} {call : Call} {answer : Answer} {c : Claimant} {s : Site}
    (h : Id.run ((call.act (g.claimant i)).run g.site) = ((answer, c), s)) :
    g.play (.call i call) = (some answer, ⟨s, Function.update g.claimant i c⟩) := by
  simp only [play, h]

theorem alike_update {i : ι} {c : Claimant} (h : (g.claimant i).Alike c) (j : ι) :
    (g.claimant j).Alike (Function.update g.claimant i c j) := by
  rw [Function.update_apply]
  by_cases hj : j = i
  · rw [if_pos hj, hj]
    exact h
  · rw [if_neg hj]
    exact .refl _

theorem play_check (hg : g.site.Honest) (i : ι) (window : Duration) :
    ∃ r c s, g.play (.call i (.check window)) =
        (some (.winner r), ⟨s, Function.update g.claimant i c⟩) ∧
      Site.Steady g.site s ∧ Site.Checked (g.claimant i) window g.site s (r, c) ∧
      (Sound (g.claimant i).key g.site.clock g.site.store.entries →
        g.site.refusal? .batch = none → ∃ winner, r = .ok winner) := by
  obtain ⟨⟨r, c⟩, calls, s, hrun, ⟨s₁, -, htouches, hr⟩, hchecked, hanswer⟩ :=
    (Site.does_check (Site.serves_recordStore (m := Id)) hg window).exists_run
  refine ⟨r, c, s, play_call ?_, htouches.toSteady.trans hr.toSteady, hchecked, hanswer⟩
  simp [Call.act, hrun]

theorem play_release (g : Contest ι) (i : ι) :
    ∃ r s, g.play (.call i .release) =
        (some (.done r), ⟨s, Function.update g.claimant i (g.claimant i)⟩) ∧
      Site.Steady g.site s ∧ Site.Released (g.claimant i) g.site s r ∧
      (Sound (g.claimant i).key g.site.clock g.site.store.entries →
        g.site.refusal? .run = none → r = .ok ()) := by
  obtain ⟨r, calls, s, hrun, ⟨s₁, -, htouches, hr⟩, hreleased, hanswer⟩ :=
    (Site.does_release (Site.serves_recordStore (m := Id)) (g.claimant i) g.site).exists_run
  refine ⟨r, s, play_call ?_, htouches.toSteady.trans hr.toSteady, hreleased, hanswer⟩
  simp [Call.act, hrun]

/-- Every turn leaves the claimants who they are, and clocks never go back. -/
theorem play_alike (hg : g.site.Honest) (t : Turn ι) :
    (∀ j, (g.claimant j).Alike ((g.play t).2.claimant j)) ∧
      g.site.clock.nanos ≤ (g.play t).2.site.clock.nanos ∧ (g.play t).2.site.Honest := by
  cases t with
  | call i call =>
    obtain ⟨⟨answer, c⟩, calls, s, hrun, hcourse, halike⟩ :=
      (Call.does_act (c := g.claimant i) hg call).exists_run
    rw [play_call hrun]
    exact ⟨alike_update halike, Nat.le_of_eq (congrArg _ hcourse.steady.clock.symm),
      hcourse.steady.honest hg⟩
  | wait d => exact ⟨fun j ↦ .refl _, Nat.le_add_right _ _, hg⟩
  | switch available => exact ⟨fun j ↦ .refl _, Nat.le_refl _, hg⟩
  | fail kind skip e => exact ⟨fun j ↦ .refl _, Nat.le_refl _, hg.push kind skip e⟩

omit [DecidableEq ι] in
theorem Opens.fair (h : g.Opens k) : g.Fair k where
  sound := by
    rw [h.empty]
    exact .empty k _
  honest := h.honest
  key := h.key

theorem Fair.play (h : g.Fair k) (t : Turn ι) : (g.play t).2.Fair k where
  honest := (play_alike h.honest t).2.2
  key i := ((play_alike h.honest t).1 i).key.trans (h.key i)
  sound := by
    cases t with
    | call i call =>
      obtain ⟨⟨answer, c⟩, calls, s, hrun, hcourse, -⟩ :=
        (Call.does_act (c := g.claimant i) h.honest call).exists_run
      have hsound := h.sound
      rw [← h.key i] at hsound
      rw [play_call hrun, ← h.key i]
      exact hcourse.sound hsound
    | wait d => exact h.sound.wait (Nat.le_add_right _ _)
    | switch available => exact h.sound
    | fail kind skip e => exact h.sound

theorem Fair.after (h : g.Fair k) (turns : List (Turn ι)) : (g.after turns).Fair k := by
  induction turns generalizing g with
  | nil => exact h
  | cons t rest ih => exact ih (h.play t)

theorem after_alike (hg : g.site.Honest) (turns : List (Turn ι)) :
    (∀ j, (g.claimant j).Alike ((g.after turns).claimant j)) ∧
      g.site.clock.nanos ≤ (g.after turns).site.clock.nanos := by
  induction turns generalizing g with
  | nil => exact ⟨fun j ↦ .refl _, Nat.le_refl _⟩
  | cons t rest ih =>
    obtain ⟨halike, hclock, hhonest⟩ := play_alike hg t
    obtain ⟨halike', hclock'⟩ := ih hhonest
    exact ⟨fun j ↦ (halike j).trans (halike' j), Nat.le_trans hclock hclock'⟩

/-- A turn that releases nothing leaves a live text where it is, unless its time is over. -/
theorem live?_play {t : Turn ι} {name v : String} {x : Option Instant} (hg : g.site.Honest)
    (hlive : g.live? name = some ⟨.text v, x⟩)
    (ht : ∀ i, t = .call i .release → (g.play t).1 ≠ some (.done (.ok ())))
    (hx : Entry.isLive ⟨.text v, x⟩ (g.play t).2.site.clock = true) :
    (g.play t).2.live? name = some ⟨.text v, x⟩ := by
  cases t with
  | call i call =>
    by_cases hcall : call = .release
    · subst hcall
      obtain ⟨r, s, hplay, hsteady, hreleased, -⟩ := play_release g i
      have hne := ht i rfl
      rw [hplay] at hne ⊢
      cases hreleased with
      | failed e hsame =>
        rw [live?, hsteady.clock, hsame]
        exact hlive
      | done => exact absurd rfl hne
    · obtain ⟨⟨answer, c⟩, calls, s, hrun, hcourse, -⟩ :=
        (Call.does_act (c := g.claimant i) hg call).exists_run
      rw [play_call hrun, live?, hcourse.steady.clock]
      exact hcourse.keepsTexts (fun h ↦ hcall (Call.eq_release_of_makes h)) name v x hlive
  | wait d =>
    have hle : g.site.clock.nanos ≤ (g.site.advance d).clock.nanos := Nat.le_add_right _ _
    change (g.site.store.entries.live? (g.site.advance d).clock name) = _
    rw [live?] at hlive
    rw [live?_of_le hle, hlive]
    exact Option.filter_eq_some_iff.mpr ⟨rfl, hx⟩
  | switch available => exact hlive
  | fail kind skip e => exact hlive

theorem live?_after {turns : List (Turn ι)} {name v : String} {x : Option Instant}
    (hg : g.site.Honest) (hlive : g.live? name = some ⟨.text v, x⟩) (hun : g.Unreleased turns)
    (hx : Entry.isLive ⟨.text v, x⟩ (g.after turns).site.clock = true) :
    (g.after turns).live? name = some ⟨.text v, x⟩ := by
  induction turns generalizing g with
  | nil => exact hlive
  | cons t rest ih =>
    obtain ⟨-, -, hhonest⟩ := play_alike hg t
    have hfirst : ∀ i, t = .call i .release → (g.play t).1 ≠ some (.done (.ok ())) := by
      intro i ht hdone
      have hmem := hun i
      rw [history, ht, ← ht, hdone] at hmem
      exact hmem List.mem_cons_self
    have hrest : (g.play t).2.Unreleased rest :=
      fun i hi ↦ hun i (List.mem_cons_of_mem _ hi)
    have hnow : Entry.isLive ⟨.text v, x⟩ (g.play t).2.site.clock = true :=
      Entry.isLive_mono (after_alike hhonest rest).2 hx
    exact ih hhonest (live?_play hg hlive hfirst hnow) hrest hx

end Contest

end UniqueJobs
