import UniqueJobs.Proofs.Strand.Weave

/-!
Instances that are dropped while another one is performed, call by call. A performance reads the flag
in one call and releases the records, the flag among them, in another. Main statement:
`Weave.heeded_unless_crossed`, that no drop is forgotten whose flag is not set between the two; in the
weave of `Weave.not_heedsAll` one is.
-/

namespace UniqueJobs

namespace Beat

def hands (i : Nat) : Beat → Bool
  | asked j ⟨.again _, _⟩ _ _ => j = i
  | _ => false

def isWait : Beat → Bool
  | waited .. => true
  | asked .. => false

def Calls (i : Nat) (call : StoreCall) (b : Beat) : Prop :=
  ∃ answer before after, b = asked i ⟨.store call, answer⟩ before after

def Spares (k : JobKey) (b : Beat) : Prop := ∀ i e, b.said? i = some e → e.ask.Spares k

variable {k : JobKey} {beats : List Beat} {b : Beat} {i : Nat} {e : Exchange}
  {first last : List Exchange} {caller : Caller} {n : Note}

theorem exists_asked (h : b.said? i = some e) : ∃ before after, b = asked i e before after := by
  cases b with
  | waited => cases h
  | asked j said before after =>
    obtain ⟨rfl, rfl⟩ := eq_of_said? h
    exact ⟨before, after, rfl⟩

/-- An exchange of a strand is one of the beats, with the strand's others before and after it. -/
theorem exists_split (h : beats.filterMap (said? i) = first ++ e :: last) :
    ∃ early before after late, beats = early ++ asked i e before after :: late ∧
      early.filterMap (said? i) = first ∧ late.filterMap (said? i) = last := by
  obtain ⟨early, rest, rfl, hfirst, hrest⟩ := List.filterMap_eq_append_iff.mp h
  obtain ⟨skipped, b, late, rfl, hskipped, hb, hlast⟩ := List.filterMap_eq_cons_iff.mp hrest
  obtain ⟨before, after, rfl⟩ := exists_asked hb
  refine ⟨early ++ skipped, before, after, late, by simp, ?_, hlast⟩
  rw [List.filterMap_append, hfirst, List.filterMap_eq_nil_iff.mpr hskipped, List.append_nil]

theorem not_releases (h : b.Spares k) : ∀ n ∈ b.notes caller, ¬ n.Releases k := by
  rintro n hn ⟨_, _, _, _, _, rfl⟩
  cases b with
  | waited => simp [notes] at hn
  | asked j said before after =>
    obtain ⟨q, a⟩ := said
    have hspares : q.Spares k := h j ⟨q, a⟩ (if_pos rfl)
    cases q with
    | store call =>
      obtain ⟨c, contact, -, hne, rfl⟩ := hspares
      have hcall := (Note.called.inj (List.mem_singleton.mp hn)).2.1
      cases contact with
      | release => exact hne rfl
      | claim | advance | readLatest | setFlag | readFlag => cases hcall
    | now | emit | freshId | again | worker? | isOn => cases hn

theorem eq_waited_of_mem_notes {before after : Site} (h : .waited before after ∈ b.notes caller) :
    b = waited before after := by
  cases b with
  | waited =>
    obtain ⟨rfl, rfl⟩ := Note.waited.inj (List.mem_singleton.mp h)
    rfl
  | asked j said _ _ =>
    obtain ⟨q, a⟩ := said
    cases q with
    | store call => cases List.mem_singleton.mp h
    | now | emit | freshId | again | worker? | isOn => cases h

end Beat

namespace Weave

/-- No waiting outlasts the flag. -/
def FlagStays (k : JobKey) (w : Weave) : Prop :=
  ∀ before after, .waited before after ∈ w.beats → (before.flag? k).isSome = true →
    (after.flag? k).isSome = true

/-- Does one strand set the flag after another one has asked for it and before that one releases the
records? -/
def Crosses (k : JobKey) (i j : Nat) (w : Weave) : Prop :=
  ∃ early found mid set more released late ttl keys,
    w.beats = early ++ found :: (mid ++ set :: (more ++ released :: late)) ∧
      found.Calls i (.get k.flag) ∧ set.Calls j (.setIfAbsent k.flag "1" ttl) ∧
      released.Calls i (.run .release [k.text, k.flag, k.configs] keys)

end Weave

section

variable {k : JobKey} {C : Nat → Contact → Prop} {Q : Nat → Report → List Exchange → Prop}
  {s : Site} {w : Weave}

theorem Woven.isSome_flag? (h : Woven k C Q s w) {early mid late : List Beat} {set : Beat} {j : Nat}
    {ttl : Duration} (hbeats : w.beats = early ++ set :: (mid ++ late))
    (hset : set.Calls j (.setIfAbsent k.flag "1" ttl)) (hmid : ∀ b ∈ mid, b.Spares k)
    (hstays : w.FlagStays k) (caller : Caller) :
    ∃ s', Chain (Move k fun _ ↦ True) s
        ((early ++ set :: mid).flatMap (Beat.notes caller)) s' ∧
      Chain (Move k fun _ ↦ True) s' (late.flatMap (Beat.notes caller)) w.site ∧
      (s'.flag? k).isSome = true := by
  obtain ⟨answer, before, after, rfl⟩ := hset
  have hchain := h.chain caller
  have hsplit : w.beats.flatMap (Beat.notes caller) =
      (early ++ .asked j ⟨.store (.setIfAbsent k.flag "1" ttl), answer⟩ before after :: mid).flatMap
        (Beat.notes caller) ++ late.flatMap (Beat.notes caller) := by
    rw [hbeats]
    simp
  rw [hsplit] at hchain
  obtain ⟨s', hfirst, hlate⟩ := hchain.exists_between
  refine ⟨s', hfirst, hlate, ?_⟩
  rw [List.flatMap_append, List.flatMap_cons] at hfirst
  obtain ⟨s₁, -, hrest⟩ := hfirst.exists_between
  cases hrest with
  | step _ hmove hkept =>
    apply hkept.isSome_flag?
    · intro n hn
      obtain ⟨b, hb, hmem⟩ := List.mem_flatMap.mp hn
      exact Beat.not_releases (hmid b hb) n hmem
    · intro before after hn
      obtain ⟨b, hb, hmem⟩ := List.mem_flatMap.mp hn
      obtain rfl := Beat.eq_waited_of_mem_notes hmem
      exact hstays before after (by simp [hbeats, hb])
    · exact Option.isSome_of_eq_some hmove.flag?_of_setsFlag

theorem Site.Calm.exists_text_of_answer {after : Site} {found : Except StoreError (Option String)}
    (hs : s.Calm) (hsound : Sound k s.clock s.store.entries) (hflag : (s.flag? k).isSome = true)
    (h : (Site.answer (.store (.get k.flag))).run s = some (found, after)) :
    ∃ text, found = .ok (some text) := by
  obtain ⟨v, hv, hsome⟩ := hsound.getText_flag
  have hrun := (Site.run_recordStore_get (m := Option) k.flag s).trans
    (congrArg some (hs.call .get _))
  obtain ⟨rfl, -⟩ := Prod.mk.inj (Option.some.inj (hrun.symm.trans h))
  obtain ⟨text, rfl⟩ := Option.isSome_iff_exists.mp (hsome.trans hflag)
  exact ⟨text, hv⟩

/-- Whoever asks for the flag after it was set and before it is released is told of it. -/
theorem Woven.exists_text_of_set (h : Woven k C Q s w) (hs : s.Calm)
    (hsound : Sound k s.clock s.store.entries) (hstays : w.FlagStays k)
    {early mid late : List Beat} {set : Beat} {i j : Nat} {ttl : Duration}
    {found : Except StoreError (Option String)} {before after : Site}
    (hbeats : w.beats =
      early ++ set :: (mid ++ .asked i ⟨.store (.get k.flag), found⟩ before after :: late))
    (hset : set.Calls j (.setIfAbsent k.flag "1" ttl)) (hmid : ∀ b ∈ mid, b.Spares k) :
    ∃ text, found = .ok (some text) := by
  obtain ⟨s', hfirst, hlast, hflag⟩ :=
    h.isSome_flag? hbeats hset hmid hstays ⟨.schedule, ⟨""⟩, []⟩
  have htold := h.told (.asked i ⟨.store (.get k.flag), found⟩ before after) (by simp [hbeats])
  cases hlast with
  | step hstill _ _ =>
    have hsound' := hfirst.sound hsound
    rw [← hstill.clock, ← hstill.store] at hsound'
    exact (hstill.like.calm (hfirst.calm hs)).exists_text_of_answer hsound'
      ((congrArg _ (hstill.flag? k)).trans hflag) htold

theorem Woven.isSome_flag?_of_set (h : Woven k C Q s w) (hstays : w.FlagStays k)
    {early late : List Beat} {set : Beat} {j : Nat} {ttl : Duration}
    (hbeats : w.beats = early ++ set :: late) (hset : set.Calls j (.setIfAbsent k.flag "1" ttl))
    (hlate : ∀ b ∈ late, b.Spares k) : (w.site.flag? k).isSome = true := by
  rw [← List.append_nil late] at hbeats
  obtain ⟨s', -, hlast, hflag⟩ := h.isSome_flag? hbeats hset hlate hstays ⟨.schedule, ⟨""⟩, []⟩
  cases hlast with
  | rest hstill => exact (congrArg _ (hstill.flag? k)).trans hflag

end

/-- Is the job of the visit an instance of the logical job? -/
def Visit.On (settings : Settings) (worker : String) (k : JobKey) (v : Visit) : Prop :=
  v.job.worker = worker ∧ (v.job.identify settings.keyspace).1 = k

namespace Weave

variable {settings : Settings} {worker : String} {k : JobKey} {s : Site} {performed : Visit}
  {scheduled : Nat → Visit}

/-- Only the performance releases the records. -/
def contacts : Nat → Contact → Prop
  | 0, _ => True
  | _ + 1, contact => contact ≠ .release

/-- What a strand has exchanged once it has ended. -/
def Ended (k : JobKey) : Nat → Report → List Exchange → Prop
  | 0, r, said => r = .performed (.ok (.executed ())) → Strand.Rounds k said
  | _ + 1, r, said => ∀ winner, r = .scheduled (.ok (.dropped winner)) →
    ∃ ttl answer, ⟨.store (.setIfAbsent k.flag "1" ttl), answer⟩ ∈ said

theorem woven_opening (hperformed : performed.On settings worker k)
    (hscheduled : ∀ i, (scheduled i).On settings worker k)
    (hstrategy : s.strategyFor worker = .untilExecuted) (hagain : s.RunsAgain worker) :
    Woven k contacts (Ended k) s (opening settings s performed scheduled) where
  chain _ := .rest (.refl s)
  told := by simp [opening]
  asked := by simp [opening]
  strands := by
    rintro (_ | i)
    · obtain ⟨rfl, hkey⟩ := hperformed
      apply (Strand.meets_perform hstrategy hagain hkey).bind
      rintro ⟨result, job⟩ new hnew
      refine Strand.Meets.pure fun hexecuted ↦ ?_
      rw [List.append_nil]
      exact hnew ⟨(), Report.performed.inj hexecuted⟩
    · obtain ⟨rfl, hkey⟩ := hscheduled i
      apply (Strand.meets_schedule hstrategy hagain hkey).bind
      rintro ⟨result, job⟩ new hnew
      refine Strand.Meets.pure fun winner hdropped ↦ ?_
      rw [List.append_nil]
      exact hnew winner (Report.scheduled.inj hdropped)

theorem spares_of_said {w : Weave} (h : Woven k contacts (Ended k) s w) {part : List Beat}
    (hpart : ∀ b ∈ part, b ∈ w.beats)
    (hsaid : ∀ e ∈ part.filterMap (Beat.said? 0), e.ask.Spares k) : ∀ b ∈ part, b.Spares k := by
  rintro b hb (_ | i) e he
  · exact hsaid e (List.mem_filterMap.mpr ⟨b, hb, he⟩)
  · exact h.asked b (hpart b hb) (i + 1) e he

theorem done_of_executed {w : Weave} {i : Nat} (h : w.executed i = true) :
    w.strands i = .done (.performed (.ok (.executed ()))) := by
  rw [executed] at h
  split at h
  · assumption
  · cases h

theorem done_of_dropped? {w : Weave} {i : Nat} {winner : JobId} (h : w.dropped? i = some winner) :
    w.strands i = .done (.scheduled (.ok (.dropped winner))) := by
  rw [dropped?] at h
  split at h
  · rwa [← Option.some.inj h]
  · cases h

/-- If the flag is set before it is asked for, the job is handed over; if it is set after the
release, it stays. -/
theorem heeds {w : Weave} (h : Woven k contacts (Ended k) s w) (hs : s.Calm)
    (hsound : Sound k s.clock s.store.entries) (hstays : w.FlagStays k)
    (hexecuted : w.executed 0 = true) {i : Nat} {winner : JobId}
    (hdropped : w.dropped? (i + 1) = some winner) :
    (∃ b ∈ w.beats, b.hands 0 = true) ∨ (w.site.flag? k).isSome = true ∨ w.Crosses k 0 (i + 1) := by
  have hrounds := h.strands 0
  rw [done_of_executed hexecuted] at hrounds
  obtain ⟨first, found, mid, keys, released, last, hsaid, hspared, hagain⟩ := hrounds rfl
  rw [List.append_nil] at hsaid
  have hset := h.strands (i + 1)
  rw [done_of_dropped? hdropped] at hset
  obtain ⟨ttl, answer, hset⟩ := hset winner rfl
  rw [List.append_nil] at hset
  obtain ⟨b, hb, hsaidset⟩ := List.mem_filterMap.mp hset
  obtain ⟨before, after, rfl⟩ := Beat.exists_asked hsaidset
  -- The beats of the performance, and where the flag is set among them.
  obtain ⟨early, before₁, after₁, rest, hbeats, hfirst, hrest⟩ := Beat.exists_split hsaid
  obtain ⟨between, before₂, after₂, late, rfl, hmid, hlast⟩ := Beat.exists_split hrest
  simp only [List.forall_mem_append, ← hfirst, ← hlast] at hspared
  have hcalls : Beat.Calls (i + 1) (.setIfAbsent k.flag "1" ttl)
      (.asked (i + 1) ⟨.store (.setIfAbsent k.flag "1" ttl), answer⟩ before after) :=
    ⟨answer, before, after, rfl⟩
  have hearly : ∀ b ∈ early, b.Spares k :=
    spares_of_said h (fun b hb ↦ by simp [hbeats, hb]) hspared.1.1
  have hlate : ∀ b ∈ late, b.Spares k :=
    spares_of_said h (fun b hb ↦ by simp [hbeats, hb]) hspared.2
  rw [hbeats] at hb
  simp only [List.mem_append, List.mem_cons] at hb
  rcases hb with hb | hb | hb | hb | hb
  · obtain ⟨front, back, rfl⟩ := List.append_of_mem hb
    rw [List.append_assoc] at hbeats
    obtain ⟨text, htext⟩ := h.exists_text_of_set hs hsound hstays hbeats hcalls
      fun b hb ↦ hearly b (by simp [hb])
    obtain ⟨job, answer', hjob⟩ := hagain text htext
    rw [← hlast] at hjob
    obtain ⟨b, hb, hb'⟩ := List.mem_filterMap.mp hjob
    obtain ⟨before', after', rfl⟩ := Beat.exists_asked hb'
    exact .inl ⟨.asked 0 ⟨.again job, answer'⟩ before' after', by simp [hbeats, hb], rfl⟩
  · cases hb
  · obtain ⟨front, back, rfl⟩ := List.append_of_mem hb
    rw [List.append_assoc] at hbeats
    exact .inr (.inr ⟨early, _, front, _, back, _, late, ttl, keys, hbeats, ⟨_, _, _, rfl⟩, hcalls,
      ⟨_, _, _, rfl⟩⟩)
  · cases hb
  · obtain ⟨lead, hlead⟩ : late <:+ w.beats := by
      rw [hbeats]
      exact (List.suffix_cons _ _).trans ((List.suffix_append _ _).trans
        ((List.suffix_cons _ _).trans (List.suffix_append _ _)))
    obtain ⟨front, back, rfl⟩ := List.append_of_mem hb
    rw [← List.append_assoc] at hlead
    exact .inr (.inl (h.isSome_flag?_of_set hstays hlead.symm hcalls
      fun b hb ↦ hlate b (by simp [hb])))

/-- Where one instance is dropped and another one performed with success, in whatever order their
calls come, the performance hands a job over, or the flag stays, or it was set between the two calls
in which the performance asks for it and releases the records. -/
theorem heeded_unless_crossed (hperformed : performed.On settings worker k)
    (hscheduled : ∀ i, (scheduled i).On settings worker k) (hs : s.Calm)
    (hsound : Sound k s.clock s.store.entries) (hstrategy : s.strategyFor worker = .untilExecuted)
    (hagain : s.RunsAgain worker) (turns : List Turn) :
    (¬ Overdue (s.wall + duration turns) →
      ∃ w, (opening settings s performed scheduled).play turns = some w) ∧
    ∀ w, (opening settings s performed scheduled).play turns = some w → w.FlagStays k →
      w.executed 0 = true → ∀ i winner, w.dropped? (i + 1) = some winner →
        (∃ b ∈ w.beats, b.hands 0 = true) ∨ (w.site.flag? k).isSome = true ∨
          w.Crosses k 0 (i + 1) := by
  have hopening := woven_opening hperformed hscheduled hstrategy hagain
  refine ⟨hopening.exists_play hs, ?_⟩
  intro w hplay hstays hexecuted i winner hdropped
  exact heeds (hopening.play hs hplay) hs hsound hstays hexecuted hdropped

def visit (id : String) : Visit where
  job := Traffic.pieceOfWork id
  measure _ location baseline := Lsn.distance location baseline
  finish job := (.ok (), job)

/-- The instance that is performed is scheduled first, and then another one. -/
def rivals : Nat → Visit
  | 0 => visit "a"
  | _ + 1 => visit "b"

theorem on_rivals (i : Nat) : (rivals i).On .default "w" ⟨"k"⟩ := by
  cases i <;> exact ⟨rfl, rfl⟩

def contest : Weave := opening .default (Traffic.shopWith Traffic.patient) (visit "a") rivals

structure Glance where
  executed : Bool
  dropped? : Option JobId
  flagged : Bool
  handed : Bool
  waited : Bool
  deriving DecidableEq

def glance (k : JobKey) (w : Weave) : Glance where
  executed := w.executed 0
  dropped? := w.dropped? 2
  flagged := (w.site.flag? k).isSome
  handed := w.beats.any (Beat.hands 0)
  waited := w.beats.any Beat.isWait

theorem flagStays_of_glance {k : JobKey} {w : Weave} (h : (w.glance k).waited = false) :
    w.FlagStays k := by
  intro before after hn
  have hany : w.beats.any Beat.isWait = true := List.any_eq_true.mpr ⟨_, hn, rfl⟩
  cases hany.symm.trans h

/-- One instance is scheduled; while it is performed, another one is dropped. -/
def inTime : List Turn :=
  .replicate 6 (.strand 1) ++ .replicate 3 (.strand 0) ++ .replicate 8 (.strand 2) ++
    .replicate 6 (.strand 0)

theorem heeded_unless_crossed_inTime :
    ∃ w, contest.play inTime = some w ∧ w.executed 0 = true ∧ w.dropped? 2 = some ⟨"a"⟩ ∧
      w.FlagStays ⟨"k"⟩ ∧ ((∃ b ∈ w.beats, b.hands 0 = true) ∨
        (w.site.flag? ⟨"k"⟩).isSome = true ∨ w.Crosses ⟨"k"⟩ 0 2) := by
  have hrun : (contest.play inTime).map (glance ⟨"k"⟩) = some ⟨true, some ⟨"a"⟩, false, true, false⟩ := by
    decide +kernel
  obtain ⟨w, hplay, hw⟩ := Option.map_eq_some_iff.mp hrun
  have hexecuted : w.executed 0 = true := congrArg Glance.executed hw
  have hdropped : w.dropped? 2 = some ⟨"a"⟩ := congrArg Glance.dropped? hw
  have hstays := flagStays_of_glance (congrArg Glance.waited hw)
  have hagain : (Traffic.shopWith Traffic.patient).RunsAgain "w" := rfl
  exact ⟨w, hplay, hexecuted, hdropped, hstays, (heeded_unless_crossed ⟨rfl, rfl⟩ on_rivals
    ⟨rfl, rfl⟩ (.empty _ _) rfl hagain inTime).2 w hplay hstays hexecuted 1 _ hdropped⟩

/-- Is the job handed over, or the flag still there, whenever an instance was dropped for the one that
is performed? -/
def HeedsAll (k : JobKey) (J : JobId) (w : Weave) : Prop :=
  w.executed 0 = true → ∀ i, w.dropped? (i + 1) = some J →
    (∃ b ∈ w.beats, b.hands 0 = true) ∨ (w.site.flag? k).isSome = true

/-- The other instance is dropped between the call that asks for the flag and the release. -/
def crossing : List Turn :=
  .replicate 6 (.strand 1) ++ .replicate 4 (.strand 0) ++ .replicate 8 (.strand 2) ++
    .replicate 2 (.strand 0)

/-- Then its flag is released unseen, and no job is handed over. -/
theorem not_heedsAll :
    (visit "a").On .default "w" ⟨"k"⟩ ∧ (∀ i, (rivals i).On .default "w" ⟨"k"⟩) ∧
      (Traffic.shopWith Traffic.patient).Calm ∧
      (Traffic.shopWith Traffic.patient).store.entries = .empty ∧
      (Traffic.shopWith Traffic.patient).strategyFor "w" = .untilExecuted ∧
      (Traffic.shopWith Traffic.patient).RunsAgain "w" ∧
      ∃ w, contest.play crossing = some w ∧ w.FlagStays ⟨"k"⟩ ∧ ¬ w.HeedsAll ⟨"k"⟩ ⟨"a"⟩ := by
  refine ⟨⟨rfl, rfl⟩, on_rivals, ⟨rfl, rfl⟩, rfl, rfl, rfl, ?_⟩
  have hrun : (contest.play crossing).map (glance ⟨"k"⟩) =
      some ⟨true, some ⟨"a"⟩, false, false, false⟩ := by
    decide +kernel
  obtain ⟨w, hplay, hw⟩ := Option.map_eq_some_iff.mp hrun
  refine ⟨w, hplay, flagStays_of_glance (congrArg Glance.waited hw), ?_⟩
  intro hheeds
  rcases hheeds (congrArg Glance.executed hw) 1 (congrArg Glance.dropped? hw) with
    ⟨b, hb, hhands⟩ | hflag
  · have hany : w.beats.any (Beat.hands 0) = true := List.any_eq_true.mpr ⟨b, hb, hhands⟩
    cases hany.symm.trans (congrArg Glance.handed hw)
  · cases hflag.symm.trans (congrArg Glance.flagged hw)

end Weave

end UniqueJobs
