import UniqueJobs.Proofs.Claimant.Latest
import UniqueJobs.Proofs.Contest.Basic

/-!
The furthest position of a config in a contest. Main statement: `furthest_first`, that a list keeps
the first of the greatest offsets until it expires and that, where all claimants measure from one
baseline, what is read of it is the furthest of the locations that got through.
-/

namespace UniqueJobs

open Entries

namespace Claimant

variable {m : Type → Type} [Monad m] [LawfulMonad m]

theorem offer_cons (c : Claimant) (store : RecordStore m) (distance : Distance m)
    (head : String × String) (rest : List (String × String)) :
    c.offer store distance (head :: rest) = (do
      match ← c.offer store distance [head] with
      | .error e => pure (.error e)
      | .ok () => c.offer store distance rest) := by
  obtain ⟨config, location⟩ := head
  rw [offer, offer, bind_assoc]
  congr 1
  funext measured
  cases measured with
  | error e => simp only [pure_bind]
  | ok offset =>
    simp only [bind_assoc]
    congr 1
    funext answer
    cases answer with
    | error e => simp only [pure_bind]
    | ok u => simp only [offer, pure_bind]

omit [LawfulMonad m] in
theorem offerLocations_of_winner {c : Claimant} (h : c.winner.isNone = false)
    (store : RecordStore m) (distance : Distance m) :
    c.offerLocations store distance = c.offer store distance c.locations.entries := by
  rw [offerLocations]
  by_cases hempty : c.locations.isEmpty = true
  · have hnil : c.locations.entries = [] := by simpa [Dictionary.isEmpty] using hempty
    rw [if_pos hempty, hnil, offer]
  · rw [if_neg hempty, h]
    rfl

abbrev measuring (measure : String → String → String → Except LsnError Int64) :
    Distance (StateT Site Id) :=
  fun config location baseline ↦ pure (measure config location baseline)

variable {c : Claimant} {measure : String → String → String → Except LsnError Int64}

theorem run_offer_singleton (config location : String) (s : Site) :
    Id.run ((c.offer Site.recordStore (measuring measure) [(config, location)]).run s) =
      match measure config location ((c.baselines.get? config).getD location) with
      | .error e => (.error (.distance config e.message), s)
      | .ok offset =>
        let r := s.call .run (runProcedure s.clock .advance [c.key.latest config, c.key.configs]
          [location, toString offset.toInt, toString c.settings.latestTtl.millis, config])
        (match r.1 with
          | .error e => .error (.store e)
          | .ok () => .ok (), r.2) := by
  rw [offer]
  simp only [measuring, pure_bind]
  cases measure config location ((c.baselines.get? config).getD location) with
  | error e => rfl
  | ok offset =>
    simp only [StateT.run_bind, Site.run_recordStore_run, pure_bind]
    cases (s.call .run (runProcedure s.clock .advance [c.key.latest config, c.key.configs]
      [location, toString offset.toInt, toString c.settings.latestTtl.millis, config])).1 <;> rfl

theorem run_offer_cons (head : String × String) (rest : List (String × String)) (s : Site) :
    Id.run ((c.offer Site.recordStore (measuring measure) (head :: rest)).run s) =
      match Id.run ((c.offer Site.recordStore (measuring measure) [head]).run s) with
      | (.error e, s') => (.error e, s')
      | (.ok (), s') => Id.run ((c.offer Site.recordStore (measuring measure) rest).run s') := by
  rw [offer_cons, StateT.run_bind, Id.run_bind]
  rcases Id.run ((c.offer Site.recordStore (measuring measure) [head]).run s) with ⟨_ | _, s'⟩ <;>
    rfl

/-- The locations of an offer that get through to the store. -/
def landed (c : Claimant) (measure : String → String → String → Except LsnError Int64) :
    List (String × String) → Site → List (String × String)
  | [], _ => []
  | head :: rest, s =>
    match Id.run ((c.offer Site.recordStore (measuring measure) [head]).run s) with
    | (.ok (), s') => head :: c.landed measure rest s'
    | (.error _, _) => []

def locationsOf (config : String) (offered : List (String × String)) : List String :=
  (offered.filter (·.1 = config)).map Prod.snd

theorem locationsOf_append (config : String) (first second : List (String × String)) :
    locationsOf config (first ++ second) =
      locationsOf config first ++ locationsOf config second := by
  simp [locationsOf]

theorem locationsOf_cons (config : String) (head : String × String)
    (rest : List (String × String)) :
    locationsOf config (head :: rest) =
      (if head.1 = config then [head.2] else []) ++ locationsOf config rest := by
  by_cases h : head.1 = config <;> simp [locationsOf, h]

end Claimant

namespace Furthest

variable {c : Claimant} {b config : String} {done : List String} {s : Site}
  {measure : String → String → String → Except LsnError Int64}

/-- An offer that gets through is one more of those that the list has seen; one that fails leaves
the list alone. -/
theorem call_advance (hs : Sound c.key s.clock s.store.entries) {location : String} {offset : Int64}
    (hdistance : Lsn.distance location b = .ok offset)
    (h : Furthest b done (s.store.entries.live? s.clock (c.key.latest config))) :
    let r := s.call .run (runProcedure s.clock .advance [c.key.latest config, c.key.configs]
      [location, toString offset.toInt, toString c.settings.latestTtl.millis, config])
    (r.1 = .ok () ∧
      Furthest b (done ++ [location]) (r.2.store.entries.live? s.clock (c.key.latest config))) ∨
    ∃ e, r.1 = .error e ∧
      Furthest b done (r.2.store.entries.live? s.clock (c.key.latest config)) := by
  intro r
  cases hrefusal : s.refusal? .run with
  | some e =>
    obtain ⟨hfst, hentries⟩ := Site.call_of_refusal_eq_some (f := runProcedure s.clock .advance
      [c.key.latest config, c.key.configs]
      [location, toString offset.toInt, toString c.settings.latestTtl.millis, config]) hrefusal
    refine .inr ⟨e, hfst, ?_⟩
    rw [hentries]
    exact h
  | none =>
    obtain ⟨hfst, hentries⟩ := Site.call_of_refusal_eq_none (f := runProcedure s.clock .advance
      [c.key.latest config, c.key.configs]
      [location, toString offset.toInt, toString c.settings.latestTtl.millis, config]) hrefusal
    rcases @Contact.live?_latest_advance c _ _ config hs location offset with
      ⟨x, hok, hlive⟩ | ⟨e, herror, hlive⟩
    · refine .inl ⟨hfst.trans hok, ?_⟩
      rw [hentries, hlive]
      exact h.raised hdistance x
    · refine .inr ⟨e, hfst.trans herror, ?_⟩
      rw [hentries, hlive]
      exact h

theorem offer_singleton (hs : Sound c.key s.clock s.store.entries) (head : String × String)
    (hmeasure : head.1 = config →
      measure config head.2 ((c.baselines.get? config).getD head.2) = Lsn.distance head.2 b)
    (h : Furthest b done (s.store.entries.live? s.clock (c.key.latest config))) :
    ∃ r s', Id.run ((c.offer Site.recordStore (Claimant.measuring measure) [head]).run s) =
        (r, s') ∧ Site.Steady s s' ∧ Sound c.key s'.clock s'.store.entries ∧
      (r = .ok () → Furthest b (done ++ Claimant.locationsOf config [head])
        (s'.store.entries.live? s'.clock (c.key.latest config))) ∧
      (r ≠ .ok () → Furthest b done
        (s'.store.entries.live? s'.clock (c.key.latest config))) := by
  obtain ⟨other, location⟩ := head
  obtain ⟨r, calls, s', hrun, hcourse⟩ := (Site.does_offer Site.serves_recordStore
    (fun _ _ _ ↦ rfl) c [(other, location)] s).exists_run
  have hclock := hcourse.steady.clock
  refine ⟨r, s', hrun, hcourse.steady, hcourse.sound hs, ?_⟩
  have hone : Claimant.locationsOf config [(other, location)] =
      if other = config then [location] else [] := by
    rw [Claimant.locationsOf_cons]
    exact List.append_nil _
  rw [Claimant.run_offer_singleton] at hrun
  rw [hone, hclock]
  by_cases hconfig : other = config
  · subst hconfig
    rw [if_pos rfl]
    rw [hmeasure rfl] at hrun
    cases hdistance : Lsn.distance location b with
    | error e =>
      obtain ⟨rfl, rfl⟩ := Prod.mk.inj (by simpa only [hdistance] using hrun)
      exact ⟨fun hr ↦ (by cases hr), fun _ ↦ h⟩
    | ok offset =>
      simp only [hdistance] at hrun
      obtain ⟨rfl, rfl⟩ := Prod.mk.inj hrun
      rcases call_advance hs hdistance h with ⟨hok, hlanded⟩ | ⟨e, herror, hsame⟩
      · rw [hok]
        exact ⟨fun _ ↦ hlanded, fun hr ↦ absurd rfl hr⟩
      · rw [herror]
        exact ⟨fun hr ↦ (by cases hr), fun _ ↦ hsame⟩
  · rw [if_neg hconfig, List.append_nil]
    have hsame : s'.store.entries.live? s.clock (c.key.latest config) =
        s.store.entries.live? s.clock (c.key.latest config) := by
      cases hm : measure other location ((c.baselines.get? other).getD location) with
      | error e =>
        obtain ⟨-, rfl⟩ := Prod.mk.inj (by simpa only [hm] using hrun)
        rfl
      | ok offset =>
        simp only [hm] at hrun
        obtain ⟨-, rfl⟩ := Prod.mk.inj hrun
        cases hrefusal : s.refusal? .run with
        | some e => rw [(Site.call_of_refusal_eq_some hrefusal).2]
        | none =>
          rw [(Site.call_of_refusal_eq_none hrefusal).2]
          apply @Contact.live?_latest c _ _ config (.advance other location offset) (by simp)
          intro _ _ heq
          exact hconfig (Contact.advance.inj heq).1
    rw [hsame]
    exact ⟨fun _ ↦ h, fun _ ↦ h⟩

theorem offer {locations : List (String × String)} (hs : Sound c.key s.clock s.store.entries)
    (hmeasure : config ∈ locations.map Prod.fst → ∀ location,
      measure config location ((c.baselines.get? config).getD location) = Lsn.distance location b)
    (h : Furthest b done (s.store.entries.live? s.clock (c.key.latest config))) :
    ∃ r s', Id.run ((c.offer Site.recordStore (Claimant.measuring measure) locations).run s) =
        (r, s') ∧ Site.Steady s s' ∧
      Furthest b (done ++ Claimant.locationsOf config (c.landed measure locations s))
        (s'.store.entries.live? s'.clock (c.key.latest config)) := by
  induction locations generalizing s done with
  | nil =>
    refine ⟨.ok (), s, rfl, .refl s, ?_⟩
    rw [Claimant.landed]
    exact (List.append_nil done).symm ▸ h
  | cons head rest ih =>
    have hhead : head.1 = config →
        measure config head.2 ((c.baselines.get? config).getD head.2) = Lsn.distance head.2 b :=
      fun heq ↦ hmeasure (by simp [heq]) head.2
    obtain ⟨r, s₁, hfirst, hsteady, hsound, hok, herror⟩ := offer_singleton hs head hhead h
    have hrun := @Claimant.run_offer_cons c measure head rest s
    rw [hfirst] at hrun
    cases r with
    | error e =>
      refine ⟨_, _, hrun, hsteady, ?_⟩
      simp only [Claimant.landed, hfirst]
      exact (List.append_nil done).symm ▸ herror (by simp)
    | ok u =>
      obtain ⟨r', s', hrest, hsteady', hlanded⟩ := ih hsound
        (fun hmem ↦ hmeasure (List.mem_cons_of_mem _ hmem)) (hok rfl)
      refine ⟨r', s', hrun.trans hrest, hsteady.trans hsteady', ?_⟩
      simp only [Claimant.landed, hfirst]
      rw [Claimant.locationsOf_cons]
      rw [Claimant.locationsOf_cons, List.append_assoc] at hlanded
      simpa [Claimant.locationsOf] using hlanded

end Furthest

namespace Contest

variable {ι : Type} [DecidableEq ι] {k : JobKey} {g : Contest ι} {b config : String}

omit [DecidableEq ι] in
/-- The locations that a turn offers, whose they are and how they are measured. -/
def offers? (g : Contest ι) : Turn ι → Option (ι × List (String × String) ×
    (String → String → String → Except LsnError Int64))
  | .call i (.offerLocations measure) =>
    if (g.claimant i).winner.isNone then none
    else some (i, (g.claimant i).locations.entries, measure)
  | .call i (.offer locations measure) => some (i, locations, measure)
  | _ => none

def landing (g : Contest ι) (t : Turn ι) : List (String × String) :=
  match g.offers? t with
  | some (i, locations, measure) => (g.claimant i).landed measure locations g.site
  | none => []

/-- The locations that get through to the store in the turns, each with its config. -/
def landed (g : Contest ι) : List (Turn ι) → List (String × String)
  | [] => []
  | t :: rest => g.landing t ++ (g.play t).2.landed rest

/-- Is every location of a config that is offered measured as a position of the log, from a baseline
that its claimant was told? -/
def MeasuredFrom (b config : String) (g : Contest ι) : List (Turn ι) → Prop
  | [] => True
  | t :: rest => (∀ i locations measure, g.offers? t = some (i, locations, measure) →
      config ∈ locations.map Prod.fst →
      (∀ location baseline, measure config location baseline = Lsn.distance location baseline) ∧
        (g.claimant i).baselines.get? config = some b) ∧
    (g.play t).2.MeasuredFrom b config rest

/-- Is there something live under a name after each of the turns? -/
def Lives (name : String) (g : Contest ι) : List (Turn ι) → Prop
  | [] => True
  | t :: rest => (g.play t).2.live? name ≠ none ∧ (g.play t).2.Lives name rest

theorem live?_ne_none_of_lives {name : String} {turns : List (Turn ι)} (hne : turns ≠ [])
    (h : g.Lives name turns) : (g.after turns).live? name ≠ none := by
  induction turns generalizing g with
  | nil => exact absurd rfl hne
  | cons t rest ih =>
    by_cases hrest : rest = []
    · subst hrest
      exact h.1
    · exact ih hrest h.2

theorem play_of_offers {t : Turn ι} {i : ι} {locations : List (String × String)}
    {measure : String → String → String → Except LsnError Int64}
    (h : g.offers? t = some (i, locations, measure)) :
    (g.play t).2.site = (Id.run (((g.claimant i).offer Site.recordStore
      (Claimant.measuring measure) locations).run g.site)).2 := by
  cases t with
  | wait | switch | fail => cases h
  | call j call =>
    cases call with
    | check | readLatest | setFlag | flagged | release => cases h
    | offer locations' measure' =>
      obtain ⟨rfl, rfl, rfl⟩ := by simpa [offers?] using h
      rfl
    | offerLocations measure' =>
      cases hwinner : (g.claimant j).winner.isNone with
      | true => simp [offers?, hwinner] at h
      | false =>
        obtain ⟨rfl, rfl, rfl⟩ := by simpa [offers?, hwinner] using h
        have hsame := Claimant.offerLocations_of_winner hwinner Site.recordStore
          (Claimant.measuring measure')
        rw [← hsame]
        rfl

omit [DecidableEq ι] in
theorem does_act_of_not_offers {i : ι} {call : Call} (hs : g.site.Honest)
    (h : g.offers? (.call i call) = none) (hrelease : call ≠ .release) :
    Site.Does unnoted (call.act (g.claimant i)) g.site fun _ calls s' ↦
      Site.Course (g.claimant i) (fun contact ↦ contact ≠ .release ∧
        ∀ config location offset, contact ≠ .advance config location offset) g.site calls s' := by
  have hstore : Site.Serves unnoted Site.recordStore := Site.serves_recordStore
  cases call with
  | release => exact absurd rfl hrelease
  | offer => cases h
  | check window =>
    refine (Site.does_check hstore hs window).map ?_
    intro r calls s' hchecked
    obtain ⟨⟨s₁, rfl, htouches, hr⟩, -⟩ := hchecked
    exact (Site.Course.one htouches hr).mono (by simp)
  | readLatest =>
    exact (Site.does_readLatest hstore hs).map fun _ _ _ hread ↦ hread.1.mono (by simp)
  | setFlag ttl =>
    exact (Site.does_setFlag hstore _ ttl _).map fun _ _ _ hset ↦ hset.mono (by simp)
  | flagged =>
    exact (Site.does_flagged hstore _ _).map fun _ _ _ hread ↦ hread.mono (by simp)
  | offerLocations measure =>
    have hwinner : (g.claimant i).winner.isNone = true := by
      cases hw : (g.claimant i).winner.isNone with
      | true => rfl
      | false => simp [offers?, hw] at h
    rw [Call.act, Claimant.offerLocations, hwinner]
    split <;> exact Site.Does.pure (.rest (.refl _))

/-- Without an offer a furthest position stays as it is, as long as it is there. -/
theorem live?_latest_play {t : Turn ι} (hg : g.Fair k) (h : g.offers? t = none)
    (halive : (g.play t).2.live? (k.latest config) ≠ none) :
    (g.play t).2.live? (k.latest config) = g.live? (k.latest config) := by
  cases t with
  | wait d =>
    have hle : g.site.clock.nanos ≤ (g.site.advance d).clock.nanos := Nat.le_add_right _ _
    change g.site.store.entries.live? (g.site.advance d).clock _ ≠ none at halive
    change g.site.store.entries.live? (g.site.advance d).clock _ = _
    rw [live?_of_le hle] at halive ⊢
    obtain ⟨e, he⟩ := Option.ne_none_iff_exists'.mp halive
    rw [he]
    exact (Option.filter_eq_some_iff.mp he).1.symm
  | switch | fail => rfl
  | call i call =>
    rw [← hg.key i] at halive ⊢
    by_cases hcall : call = .release
    · subst hcall
      obtain ⟨r, s, hplay, hsteady, hreleased, -⟩ := play_release g i
      rw [hplay] at halive ⊢
      rw [live?, hsteady.clock] at halive ⊢
      cases hreleased with
      | failed e hlive => exact hlive _
      | done hentries =>
        rw [hentries] at halive ⊢
        exact Contact.live?_latest_release halive
    · obtain ⟨⟨answer, c⟩, calls, s, hrun, hcourse⟩ :=
        (does_act_of_not_offers hg.honest h hcall).exists_run
      rw [play_call hrun, live?, hcourse.steady.clock]
      refine hcourse.preserves (P := fun es ↦ es.live? g.site.clock _ = _) ?_ rfl
      intro contact es hcontact hes
      exact (Contact.live?_latest hcontact.1 (hcontact.2 config)).trans hes

theorem furthest_play {t : Turn ι} {done : List String} (hg : g.Fair k)
    (hmeasured : g.MeasuredFrom b config [t]) (halive : (g.play t).2.live? (k.latest config) ≠ none)
    (h : Furthest b done (g.live? (k.latest config))) :
    Furthest b (done ++ Claimant.locationsOf config (g.landing t))
      ((g.play t).2.live? (k.latest config)) := by
  cases hoffers : g.offers? t with
  | none =>
    rw [live?_latest_play hg hoffers halive, landing, hoffers]
    exact (List.append_nil done).symm ▸ h
  | some offered =>
    obtain ⟨i, locations, measure⟩ := offered
    have hsound := hg.sound
    rw [← hg.key i] at hsound
    have hmeasure : config ∈ locations.map Prod.fst → ∀ location,
        measure config location (((g.claimant i).baselines.get? config).getD location) =
          Lsn.distance location b := by
      intro hmem location
      obtain ⟨hlsn, hbaseline⟩ := hmeasured.1 i locations measure hoffers hmem
      rw [hlsn, hbaseline]
      rfl
    rw [← hg.key i] at h
    obtain ⟨r, s', hrun, hsteady, hlanded⟩ := h.offer hsound hmeasure
    have hsite := play_of_offers hoffers
    rw [hrun] at hsite
    rw [landing, hoffers, live?, hsite, ← hg.key i]
    exact hlanded

/-- The run lemma: while the list lives, it holds the furthest of what has got through. -/
theorem furthest_after {turns : List (Turn ι)} {done : List String} (hg : g.Fair k)
    (hmeasured : g.MeasuredFrom b config turns) (hlives : g.Lives (k.latest config) turns)
    (h : Furthest b done (g.live? (k.latest config))) :
    Furthest b (done ++ Claimant.locationsOf config (g.landed turns))
      ((g.after turns).live? (k.latest config)) := by
  induction turns generalizing g done with
  | nil => exact (List.append_nil done).symm ▸ h
  | cons t rest ih =>
    have hfirst := furthest_play hg ⟨hmeasured.1, trivial⟩ hlives.1 h
    have hrest := ih (hg.play t) hmeasured.2 hlives.2 hfirst
    rw [landed, Claimant.locationsOf_append, ← List.append_assoc]
    exact hrest

/-- A claimant that has not read the furthest positions yet is told them, unless it is refused. -/
theorem does_readLatest_of_fresh {c : Claimant} {s : Site} (hs : s.Honest)
    (hfresh : c.latest = none) (hsound : Sound c.key s.clock s.store.entries)
    (hrefusal : s.refusal? .batch = none) :
    Site.Does unnoted (c.readLatest Site.recordStore) s fun r _ _ ↦
      ∃ d, r.1 = .ok d ∧ ∀ config, d.get? config =
        if c.locations.contains config = true then
          furthest? s.clock (c.key.latest config) s.store.entries
        else none := by
  rw [Claimant.readLatest, hfresh]
  by_cases hempty : c.locations.isEmpty = true
  · simp only [hempty, ↓reduceIte]
    have hnil : c.locations.entries = [] := by simpa [Dictionary.isEmpty] using hempty
    refine Site.Does.pure ⟨.empty, rfl, fun config ↦ ?_⟩
    have hnone : ¬ c.locations.contains config = true := by
      rw [← Dictionary.mem_keys_iff, Dictionary.keys, hnil]
      simp
    rw [if_neg hnone]
    rfl
  · simp only [hempty, Bool.false_eq_true, ↓reduceIte]
    obtain ⟨replies, d, hreplies, hd, hget⟩ := Claimant.exists_latest hsound
    have hfst := (Site.call_of_refusal_eq_none (f := carryOutAll s.clock c.latestReads) hrefusal).1
    refine Site.Does.bind_call (Site.serves_recordStore.batch c.latestReads s hs) ?_
    rw [hfst, hreplies]
    simp only [hd]
    exact Site.Does.pure ⟨d, rfl, hget⟩

theorem latest_of_play {j : ι} (hg : g.Fair k) (hfresh : (g.claimant j).latest = none)
    (hrefusal : g.site.refusal? .batch = none) :
    ∃ d, (g.play (.call j .readLatest)).1 = some (.latest (.ok d)) ∧ ∀ config, d.get? config =
      if (g.claimant j).locations.contains config = true then
        furthest? g.site.clock (k.latest config) g.site.store.entries
      else none := by
  have hsound := hg.sound
  rw [← hg.key j] at hsound ⊢
  obtain ⟨r, calls, s', hrun, d, hd, hget⟩ :=
    (does_readLatest_of_fresh hg.honest hfresh hsound hrefusal).exists_run
  have hact : Id.run ((Call.readLatest.act (g.claimant j)).run g.site) =
      ((.latest r.1, r.2), s') := by
    simp [Call.act, hrun]
  refine ⟨d, ?_, hget⟩
  rw [play_call hact, hd]

/-- What a fresh claimant reads of a list since it was made. -/
theorem exists_furthest {j : ι} {turns : List (Turn ι)} (hg : g.Fair k)
    (hnone : g.live? (k.latest config) = none) (hne : turns ≠ [])
    (hlives : g.Lives (k.latest config) turns) (hmeasured : g.MeasuredFrom b config turns)
    (hfresh : ((g.after turns).claimant j).latest = none)
    (hcarries : ((g.after turns).claimant j).locations.contains config = true)
    (hrefusal : (g.after turns).site.refusal? .batch = none) :
    ∃ d location, ((g.after turns).play (.call j .readLatest)).1 = some (.latest (.ok d)) ∧
      d.get? config = some location ∧
      location ∈ Claimant.locationsOf config (g.landed turns) ∧
      ∀ other ∈ Claimant.locationsOf config (g.landed turns), ∃ p q,
        Lsn.parse location = .ok p ∧ Lsn.parse other = .ok q ∧ q ≤ p := by
  have hbegin : Furthest b [] (g.live? (k.latest config)) := hnone ▸ .absent
  have hend := furthest_after hg hmeasured hlives hbegin
  rw [List.nil_append] at hend
  obtain ⟨e, he⟩ := Option.ne_none_iff_exists'.mp (live?_ne_none_of_lives hne hlives)
  rw [he] at hend
  obtain ⟨location, offset, x, rfl, hlanded, hfurthest⟩ := hend.exists_location
  obtain ⟨d, hread, hget⟩ := latest_of_play (hg.after turns) hfresh hrefusal
  refine ⟨d, location, hread, ?_, hlanded, hfurthest⟩
  rw [hget, if_pos hcarries]
  exact furthest?_of_position he

/-- A list that is absent at first keeps the first of the greatest offsets with its location,
expires when it was to expire at first, and keeps the same offset whatever the order. So what a fresh
claimant reads is the furthest location that has got through since the list was made, if all of them
were measured from one baseline. -/
theorem furthest_first :
    (∀ list first rest es t, Evaluation.Uninterrupted list es first rest t →
      ∃ e, FirstGreatest Evaluation.offset (first :: rest) e ∧
        (es.evaluateAll list (first :: rest)).live? t list = some (e.position first.expiry) ∧
        ∀ list' first' rest' es' t', Evaluation.Uninterrupted list' es' first' rest' t' →
          ((first' :: rest').map Evaluation.offset).Perm
            ((first :: rest).map Evaluation.offset) →
          ∃ location, (es'.evaluateAll list' (first' :: rest')).live? t' list' =
            some (.position location e.offset first'.expiry)) ∧
    ∀ (ι : Type) [DecidableEq ι] (k : JobKey) (start : Contest ι) (before turns : List (Turn ι))
      (b config : String) (j : ι), start.Opens k → turns ≠ [] →
      let g := start.after before
      g.live? (k.latest config) = none → g.Lives (k.latest config) turns →
      g.MeasuredFrom b config turns → ((g.after turns).claimant j).latest = none →
      (start.claimant j).locations.contains config = true →
      (g.after turns).site.refusal? .batch = none →
      ∃ d location, ((g.after turns).play (.call j .readLatest)).1 = some (.latest (.ok d)) ∧
        d.get? config = some location ∧
        location ∈ Claimant.locationsOf config (g.landed turns) ∧
        ∀ other ∈ Claimant.locationsOf config (g.landed turns), ∃ p q,
          Lsn.parse location = .ok p ∧ Lsn.parse other = .ok q ∧ q ≤ p := by
  constructor
  · intro list first rest es t h
    obtain ⟨e, he, hlive⟩ := exists_firstGreatest h
    refine ⟨e, he, hlive, ?_⟩
    intro list' first' rest' es' t' h' hperm
    obtain ⟨e', he', hlive'⟩ := exists_firstGreatest h'
    refine ⟨e'.location, ?_⟩
    rw [hlive', Evaluation.position, he.eq_of_perm he' hperm]
  · intro ι _ k start before turns b config j hstart hne g hnone hlives hmeasured hfresh hcarries
      hrefusal
    have hg : g.Fair k := hstart.fair.after before
    have halike := ((after_alike hstart.honest before).1 j).trans
      ((after_alike hg.honest turns).1 j)
    rw [← halike.locations] at hcarries
    exact exists_furthest hg hnone hne hlives hmeasured hfresh hcarries hrefusal

def evaluationAt (nanos : Nat) (location : String) (offset : Int64) : Evaluation :=
  ⟨⟨nanos⟩, "k:wal_configs", location, toString offset.toInt, offset,
    Text.readInt64_toString offset, "60000", 60_000, rfl, "main"⟩

theorem uninterrupted_evaluationAt : Evaluation.Uninterrupted "k:main:wal_location" .empty
    (evaluationAt 0 "0/7" (-1)) [evaluationAt 1 "0/A" 2, evaluationAt 2 "0/B" 2] ⟨3⟩ where
  absent := rfl
  successive := ⟨by decide, by decide, Nat.le_succ 2⟩
  unexpired x hx := by
    have hexpiry : (evaluationAt 0 "0/7" (-1)).expiry = some ⟨60_000_000_000⟩ := by
      decide +kernel
    rw [hexpiry] at hx
    obtain rfl := Option.some.inj hx
    decide

def checking : Turn Bool := .call false (.check (.ofMillis 1000))

def offering : Turn Bool :=
  .call false (.offerLocations fun _ location baseline ↦ Lsn.distance location baseline)

theorem measuredFrom_offering : (twins.after [checking]).MeasuredFrom "0/1" "main" [offering] := by
  refine ⟨?_, trivial⟩
  intro i locations measure h _
  obtain ⟨rfl, -, rfl⟩ : false = i ∧ _ ∧ _ = measure := by
    simpa using Option.some.inj (show some _ = _ from h)
  exact ⟨fun _ _ ↦ rfl, rfl⟩

set_option maxRecDepth 10000 in
/-- Of three offsets the second one is the first of the greatest, and one instance is told the only
position that the other one has reported. -/
theorem furthest_first_twins :
    (∃ e, FirstGreatest Evaluation.offset
        [evaluationAt 0 "0/7" (-1), evaluationAt 1 "0/A" 2, evaluationAt 2 "0/B" 2] e ∧
      (Entries.evaluateAll "k:main:wal_location" [evaluationAt 0 "0/7" (-1),
        evaluationAt 1 "0/A" 2, evaluationAt 2 "0/B" 2] .empty).live? ⟨3⟩ "k:main:wal_location" =
          some (e.position (evaluationAt 0 "0/7" (-1)).expiry)) ∧
    ∃ d, ((twins.after [checking, offering]).play (.call true .readLatest)).1 =
      some (.latest (.ok d)) ∧ d.get? "main" = some "0/1" := by
  obtain ⟨hevaluations, hcontest⟩ := furthest_first
  constructor
  · obtain ⟨e, he, hlive, -⟩ := hevaluations _ _ _ _ _ uninterrupted_evaluationAt
    exact ⟨e, he, hlive⟩
  · obtain ⟨d, location, hread, hlocation, hlanded, -⟩ := hcontest Bool ⟨"k"⟩ twins [checking]
      [offering] "0/1" "main" true opens_twins (by simp) rfl ⟨by decide +kernel, trivial⟩
      measuredFrom_offering rfl rfl rfl
    have hone : Claimant.locationsOf "main" ((twins.after [checking]).landed [offering]) =
        ["0/1"] := rfl
    rw [hone, List.mem_singleton] at hlanded
    subst hlanded
    exact ⟨d, hread, hlocation⟩

end Contest

end UniqueJobs
