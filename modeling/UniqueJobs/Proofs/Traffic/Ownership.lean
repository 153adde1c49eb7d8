import UniqueJobs.Proofs.Traffic.Passage

/-!
Who takes a window away before its time. Main statement: `Traffic.window_loss`; the instances of
`Traffic.not_ownersOnly` show that it need not be the holder.
-/

namespace UniqueJobs

namespace Traffic

variable {settings : Settings} {strategy : Strategy} {k : JobKey} {worker : String}

theorem answers_modify {f : Site → Site} (hf : ∀ s : Site, s.Drifts (f s)) :
    Answers strategy k worker (modify f : Scene Unit) fun _ ↦ True := by
  intro s _ _ seen r hr
  obtain rfl := Option.some.inj hr
  exact ⟨[], (List.append_nil seen).symm, .rest (hf s), .nil, trivial⟩

theorem answers_run (t : Traffic) (ht : t.Of settings worker k) (place : List Bool) :
    Answers strategy k worker (t.run settings place) fun _ ↦ True := by
  induction t generalizing place with
  | none => exact .pure trivial
  | pass stage job measure inside finish rest ihinside ihrest =>
    obtain ⟨hworker, hkey, hinside, hrest⟩ := ht
    have hnext (job : Job) : Answers strategy k worker
        (do inside.run settings (true :: place); pure (finish job)) fun _ ↦ True :=
      (ihinside hinside _).bind fun _ _ ↦ .pure trivial
    cases stage with
    | schedule =>
      refine Answers.bind (R := fun _ ↦ True) ?_ fun _ _ ↦ ihrest hrest _
      exact (Scene.answers_schedule hnext hworker hkey).bind fun _ _ ↦ .pure trivial
    | perform =>
      refine Answers.bind (R := fun _ ↦ True) ?_ fun _ _ ↦ ihrest hrest _
      exact (Scene.answers_perform hnext rfl rfl hworker hkey).bind fun _ _ ↦ .pure trivial
  | wait d rest ih =>
    have hdrifts : ∀ s : Site, s.Drifts (s.advance d) := by
      intro s
      exact ⟨Nat.le_add_right _ _, rfl, fun _ ↦ rfl, id⟩
    exact (answers_modify hdrifts).bind fun _ _ ↦ ih ht place
  | switch available rest ih =>
    have hdrifts : ∀ s : Site, s.Drifts { s with store := s.store.setAvailable available } := by
      intro s
      exact ⟨Nat.le_refl _, rfl, fun _ ↦ rfl, id⟩
    exact (answers_modify hdrifts).bind fun _ _ ↦ ih ht place
  | fail kind skip e rest ih =>
    have hdrifts : ∀ s : Site, s.Drifts { s with cues := s.cues.push kind skip (.fail e) } := by
      intro s
      exact ⟨Nat.le_refl _, rfl, fun _ ↦ rfl, Site.Honest.push kind skip e⟩
    exact (answers_modify hdrifts).bind fun _ _ ↦ ih ht place

/-- A live window is lost in performances alone, and between calls nothing is lost at all. The
instance performed is the one that holds the window, unless the strategy is to release when a job has
run or, under the other one, the instance has lost its own window since it found it. -/
theorem window_loss (t : Traffic) (ht : t.Of settings worker k) {s s' : Site}
    {trace : List Glimpse} (hs : s.Honest)
    (hrun : ((t.run settings []).run s).run [] = some (((), s'), trace)) :
    Linked s trace s' ∧ ∀ first g rest holder expiry, trace = first ++ g :: rest →
      g.Loses k holder expiry → Blamed (s.strategyFor worker) k holder first g := by
  obtain ⟨trace', htrace, hlinked, haccounted, -⟩ := answers_run t ht [] s hs rfl [] _ hrun
  obtain rfl : trace = trace' := htrace
  refine ⟨hlinked, ?_⟩
  intro first g rest holder expiry heq hloses
  exact haccounted.blamed heq hloses

end Traffic

instance (k : JobKey) (holder : JobId) (expiry : Option Instant) (g : Glimpse) :
    Decidable (g.Loses k holder expiry) :=
  decidable_of_iff (_ ∧ _) ⟨fun h ↦ ⟨h.1, h.2⟩, fun h ↦ ⟨h.before, h.after⟩⟩

namespace Traffic

def shop (strategy : String) : Site :=
  { Site.opened 1_700_000_000_000_000_000 ⟨1_000_000_000_000_000⟩ with
    workers := Dictionary.empty.insert "w" (Worker.newIdempotent.withStrategy strategy) }

def pieceOfWork (id : String) : Job := { Job.new ⟨id⟩ "w" [] with key := some "k" }

def through (stage : Stage) (job : Job) (inside rest : Traffic) : Traffic :=
  pass stage job (fun _ location baseline ↦ Lsn.distance location baseline) inside
    (fun job ↦ (.ok (), job)) rest

/-- One instance is scheduled, another one is put off and so passes by the window, and it is the
other one that is performed first. -/
def overtaking : Traffic :=
  through .schedule (pieceOfWork "a") none <|
    through .schedule { pieceOfWork "b" with runAt := Timestamp.ofSecs? 1_700_100_000 } none <|
      through .perform { pieceOfWork "b" with runAt := Timestamp.ofSecs? 1_700_100_000 } none none

/-- One instance runs for longer than its window is held, and another one is scheduled meanwhile. -/
def overrunning : Traffic :=
  through .perform (pieceOfWork "a")
    (wait (.ofSecs 100_000) <| through .schedule (pieceOfWork "b") none none) none

theorem of_overtaking : overtaking.Of .default "w" ⟨"k"⟩ :=
  ⟨rfl, rfl, trivial, rfl, rfl, trivial, rfl, rfl, trivial, trivial⟩

theorem of_overrunning : overrunning.Of .default "w" ⟨"k"⟩ :=
  ⟨rfl, rfl, ⟨rfl, rfl, trivial, trivial⟩, trivial⟩

theorem honest_shop (strategy : String) : (shop strategy).Honest := by
  intro q hq
  cases hq

theorem exists_of_any {t : Traffic} {s : Site} {p : Glimpse → Bool}
    (h : (((t.run .default []).run s).run []).map (fun r ↦ r.2.any p) = some true) :
    ∃ s' trace, ((t.run .default []).run s).run [] = some (((), s'), trace) ∧
      ∃ g ∈ trace, p g = true := by
  obtain ⟨⟨⟨u, s'⟩, trace⟩, hrun, hany⟩ := Option.map_eq_some_iff.mp h
  exact ⟨s', trace, hrun, List.any_eq_true.mp hany⟩

/-- Is every window that is lost before its time lost in a performance of its holder? -/
def OwnersOnly (k : JobKey) (trace : List Glimpse) : Prop :=
  ∀ g ∈ trace, ∀ holder expiry, g.Loses k holder expiry →
    g.caller.stage = .perform ∧ g.caller.id = holder

theorem exists_not_ownersOnly {t : Traffic} {s : Site} (holder other : JobId)
    (expiry : Option Instant) (hne : other ≠ holder)
    (h : (((t.run .default []).run s).run []).map (fun r ↦ r.2.any fun g ↦
      decide (g.Loses ⟨"k"⟩ holder expiry ∧ g.caller.id = other)) = some true) :
    ∃ s' trace, ((t.run .default []).run s).run [] = some (((), s'), trace) ∧
      ¬ OwnersOnly ⟨"k"⟩ trace := by
  obtain ⟨s', trace, hrun, g, hg, htest⟩ := exists_of_any h
  obtain ⟨hloses, hcaller⟩ := of_decide_eq_true htest
  refine ⟨s', trace, hrun, ?_⟩
  intro howners
  have hid := (howners g hg holder expiry hloses).2
  exact hne (hcaller.symm.trans hid)

/-- Under either strategy that locks, a window may be lost in a performance of an instance that does
not hold it. -/
theorem not_ownersOnly :
    (overtaking.Of .default "w" ⟨"k"⟩ ∧
      (shop "until_executed").strategyFor "w" = .untilExecuted ∧
      ∃ s' trace, ((overtaking.run .default []).run (shop "until_executed")).run [] =
        some (((), s'), trace) ∧ ¬ OwnersOnly ⟨"k"⟩ trace) ∧
    overrunning.Of .default "w" ⟨"k"⟩ ∧
      (shop "until_executing").strategyFor "w" = .untilExecuting ∧
      ∃ s' trace, ((overrunning.run .default []).run (shop "until_executing")).run [] =
        some (((), s'), trace) ∧ ¬ OwnersOnly ⟨"k"⟩ trace := by
  refine ⟨⟨of_overtaking, rfl, ?_⟩, of_overrunning, rfl, ?_⟩
  · exact exists_not_ownersOnly ⟨"a"⟩ ⟨"b"⟩ (some ⟨1_021_600_000_000_000⟩) (by decide)
      (by decide +kernel)
  · exact exists_not_ownersOnly ⟨"b"⟩ ⟨"a"⟩ (some ⟨1_121_600_000_000_000⟩) (by decide)
      (by decide +kernel)

/-- The window that the first instance holds is lost when the other one is performed, and the
strategy is to blame. -/
theorem window_loss_overtaking :
    ∃ first g, g.Loses ⟨"k"⟩ ⟨"a"⟩ (some ⟨1_021_600_000_000_000⟩) ∧
      Blamed .untilExecuted ⟨"k"⟩ ⟨"a"⟩ first g := by
  obtain ⟨s', trace, hrun, g, hg, htest⟩ := exists_of_any (t := overtaking)
    (s := shop "until_executed")
    (p := fun g ↦ decide (g.Loses ⟨"k"⟩ ⟨"a"⟩ (some ⟨1_021_600_000_000_000⟩)))
    (by decide +kernel)
  obtain ⟨first, rest, htrace⟩ := List.append_of_mem hg
  have hloses := of_decide_eq_true htest
  have hlosses := (window_loss overtaking of_overtaking (honest_shop _) hrun).2
  exact ⟨first, g, hloses, hlosses first g rest _ _ htrace hloses⟩

end Traffic

end UniqueJobs
