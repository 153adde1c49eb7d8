import UniqueJobs.Proofs.Journal.Gate

/-!
Whole runs of undisturbed traffic. `Happens` follows the traffic pass by pass, and
`Traffic.happens` says that a run is one of these unless the calendar ends.
-/

namespace UniqueJobs

open Entries

/-- What happens as traffic is let through under one strategy. -/
inductive Happens (settings : Settings) (strategy : Strategy) :
    Traffic → List Bool → Site → List Note → Site → Prop
  | none {place : List Bool} {s : Site} : Happens settings strategy .none place s [] s
  | wait {d : Duration} {rest : Traffic} {place : List Bool} {s s' : Site} {notes : List Note}
      (hrest : Happens settings strategy rest place (s.advance d) notes s') :
      Happens settings strategy (.wait d rest) place s (.waited s (s.advance d) :: notes) s'
  | barred {stage : Stage} {job : Job}
      {measure : String → String → String → Except LsnError Int64} {inside : Traffic}
      {finish : Job → Except String Unit × Job} {rest : Traffic} {place : List Bool}
      {o : Outcome} {own more : List Note} {s s₁ s₂ s' : Site} (hquiet : s.Quiet s₁)
      (hbarred : (Pass.ofJob settings strategy measure ⟨stage, job.id, place⟩
        (s.workers.get? job.worker) job).Barred s₁ o own s₂)
      (hrest : Happens settings strategy rest (false :: place) s₂ more s') :
      Happens settings strategy (.pass stage job measure inside finish rest) place s
        (own ++ o.note ⟨stage, job.id, place⟩ s₂ :: more) s'
  | through {stage : Stage} {job given : Job}
      {measure : String → String → String → Except LsnError Int64} {inside : Traffic}
      {finish : Job → Except String Unit × Job} {rest : Traffic} {place : List Bool}
      {held : Bool} {before within after more : List Note} {s s₁ s₂ s₃ s₄ s' : Site}
      (hquiet : s.Quiet s₁)
      (henters : (Pass.ofJob settings strategy measure ⟨stage, job.id, place⟩
        (s.workers.get? job.worker) job).Enters s₁ held before given s₂)
      (hinside : Happens settings strategy inside (true :: place) s₂ within s₃)
      (hleaves : (Pass.ofJob settings strategy measure ⟨stage, job.id, place⟩
        (s.workers.get? job.worker) job).Leaves s₃ held (finish given).1 after s₄)
      (hhands : s₄.rescheduled = s₃.rescheduled ++
        (Pass.ofJob settings strategy measure ⟨stage, job.id, place⟩
          (s.workers.get? job.worker) job).handedOver s₃ (finish given).1 (finish given).2)
      (hrest : Happens settings strategy rest (false :: place) s₄ more s') :
      Happens settings strategy (.pass stage job measure inside finish rest) place s
        (before ++ (.handed ⟨stage, job.id, place⟩ given s₂ :: within) ++
          (.finished ⟨stage, job.id, place⟩ (finish given).1 s₃ :: after) ++
          ((Outcome.ended (finish given).1).note ⟨stage, job.id, place⟩ s₄ :: more)) s'

/-- The site after a time of at most `d`: nothing changes by itself but the time. -/
structure Site.Later (d : Nat) (s s' : Site) : Prop where
  available : s'.store.available = s.store.available
  cues : s'.cues = s.cues
  workers : s'.workers = s.workers
  off : s'.off = s.off
  wall : s'.wall ≤ s.wall + d

namespace Site

variable {s s' s'' : Site} {d d' : Nat}

theorem Like.later (h : Like s s') : Later 0 s s' :=
  ⟨h.available, h.cues, h.workers, h.off, Nat.le_of_eq h.wall⟩

theorem later_advance (s : Site) (d : Duration) : Later d.nanos s (s.advance d) :=
  ⟨rfl, rfl, rfl, rfl, Nat.le_refl _⟩

theorem Later.trans (h : Later d s s') (h' : Later d' s' s'') : Later (d + d') s s'' where
  available := h'.available.trans h.available
  cues := h'.cues.trans h.cues
  workers := h'.workers.trans h.workers
  off := h'.off.trans h.off
  wall := by
    have hfirst := h.wall
    have hsecond := h'.wall
    omega

theorem Later.calm (h : Later d s s') (hs : s.Calm) : s'.Calm :=
  ⟨h.available.trans hs.available, h.cues.trans hs.cues⟩

theorem Later.strategyFor (h : Later d s s') (worker : String) :
    s'.strategyFor worker = s.strategyFor worker := by
  rw [Site.strategyFor, Site.strategyFor, h.workers, h.off]

end Site

namespace Happens

variable {settings : Settings} {strategy : Strategy} {t : Traffic} {place : List Bool}
  {s s' : Site} {notes : List Note}

theorem later (h : Happens settings strategy t place s notes s') : s.Later t.duration s' := by
  induction h with
  | none => exact (Site.Like.refl _).later
  | @wait d rest place s s' notes _ ih =>
    exact (s.later_advance d).trans ih
  | barred hquiet hbarred _ ih =>
    have hall := (hquiet.like.trans hbarred.like).later.trans ih
    refine ⟨hall.available, hall.cues, hall.workers, hall.off, ?_⟩
    have hwall := hall.wall
    simp only [Traffic.duration]
    omega
  | through hquiet henters _ hleaves _ _ ihinside ihrest =>
    have hall := ((hquiet.like.trans henters.like).later.trans ihinside).trans
      (hleaves.like.later.trans ihrest)
    refine ⟨hall.available, hall.cues, hall.workers, hall.off, ?_⟩
    have hwall := hall.wall
    simp only [Traffic.duration]
    omega

/-- The continuation of a pass, with the traffic that it lets through before it ends. -/
def Within (settings : Settings) (strategy : Strategy) (caller : Caller) (inside : Traffic)
    (finish : Job → Except String Unit × Job) (given : Job) (s : Site)
    (r : Except String Unit × Job) (notes : List Note) (s' : Site) : Prop :=
  r = finish given ∧ ∃ within, Happens settings strategy inside (true :: caller.place) s within s' ∧
    notes = (.handed caller given s :: within) ++ [.finished caller (finish given).1 s']

theorem of_goes {stage : Stage} {job : Job}
    {measure : String → String → String → Except LsnError Int64} {inside : Traffic}
    {finish : Job → Except String Unit × Job} {o : Outcome} {s₁ s₂ : Site}
    (hquiet : s.Quiet s₁)
    (hgoes : (Pass.ofJob settings strategy measure ⟨stage, job.id, place⟩
      (s.workers.get? job.worker) job).Goes
        (Within settings strategy ⟨stage, job.id, place⟩ inside finish) s₁ o notes s₂) :
    s.Later inside.duration s₂ ∧ ∀ rest more s',
      Happens settings strategy rest (false :: place) s₂ more s' →
      Happens settings strategy (.pass stage job measure inside finish rest) place s
        (notes ++ o.note ⟨stage, job.id, place⟩ s₂ :: more) s' := by
  cases hgoes with
  | barred h =>
    have hlater := (hquiet.like.trans h.like).later
    refine ⟨⟨hlater.available, hlater.cues, hlater.workers, hlater.off, ?_⟩,
      fun rest more s' ↦ .barred hquiet h⟩
    exact Nat.le_trans hlater.wall (Nat.add_le_add_left (Nat.zero_le _) _)
  | @through held result given given' before _ after s₃ s₄ _ henters hnext hleaves hhands =>
    obtain ⟨hresult, within, hinside, rfl⟩ := hnext
    obtain ⟨rfl, rfl⟩ := Prod.mk.inj hresult
    have hlater := ((hquiet.like.trans henters.like).later.trans hinside.later).trans
      hleaves.like.later
    rw [Nat.zero_add, Nat.add_zero] at hlater
    refine ⟨hlater, fun rest more s' hrest ↦ ?_⟩
    have hall := Happens.through hquiet henters hinside hleaves hhands hrest
    simpa using hall

end Happens

namespace Journal

variable {settings : Settings} {strategy : Strategy} {worker : String} {limit : Nat}

theorem ends_inside (caller : Caller) {inside : Traffic} {s : Site}
    (finish : Job → Except String Unit × Job)
    (h : Ends limit (inside.journal settings (true :: caller.place)) s fun _ notes s' ↦
      Happens settings strategy inside (true :: caller.place) s notes s') (given : Job) :
    Ends limit (do
      enter (.handed caller given)
      inside.journal settings (true :: caller.place)
      enter (.finished caller (finish given).1)
      pure (finish given)) s
      (Happens.Within settings strategy caller inside finish given s) := by
  have hhanded : Ends limit (enter (.handed caller given)) s fun _ notes s' ↦
      notes = [.handed caller given s] ∧ s = s' := Ends.enter ⟨rfl, rfl⟩
  apply hhanded.bind
  rintro _ _ _ ⟨rfl, rfl⟩
  apply h.bind
  intro _ within s₁ hinside
  have hfinished : Ends limit (enter (.finished caller (finish given).1)) s₁ fun _ notes s' ↦
      notes = [.finished caller (finish given).1 s₁] ∧ s₁ = s' := Ends.enter ⟨rfl, rfl⟩
  apply hfinished.bind
  rintro _ _ _ ⟨rfl, rfl⟩
  exact Ends.pure ⟨rfl, within, hinside, by simp⟩

theorem ends_journal (settings : Settings) (hlocks : strategy.locks = true) (t : Traffic)
    (place : List Bool) {s : Site}
    (ht : t.Passes fun _ job _ ↦ job.worker = worker) (hs : s.Calm)
    (hstrategy : s.strategyFor worker = strategy) (hlimit : s.wall + t.duration ≤ limit) :
    Ends limit (t.journal settings place) s fun _ notes s' ↦
      Happens settings strategy t place s notes s' := by
  induction t generalizing place s with
  | none => exact Ends.pure .none
  | switch available rest => exact ht.elim
  | fail kind skip e rest => exact ht.elim
  | wait d rest ih =>
    have hnote : Ends limit (enter fun s ↦ .waited s (s.advance d)) s fun _ notes s' ↦
        notes = [.waited s (s.advance d)] ∧ s = s' := Ends.enter ⟨rfl, rfl⟩
    apply hnote.bind
    rintro _ _ _ ⟨rfl, rfl⟩
    have hwait : Ends limit (modify (Site.advance d) : Journal Unit) s fun _ notes s' ↦
        notes = [] ∧ s' = s.advance d := Ends.modify ⟨rfl, rfl⟩
    apply hwait.bind
    rintro _ _ _ ⟨rfl, rfl⟩
    have hlimit' : (s.advance d).wall + rest.duration ≤ limit := by
      simp only [Site.advance]
      simp only [Traffic.duration] at hlimit
      omega
    have hcalm : (s.advance d).Calm := ⟨hs.available, hs.cues⟩
    apply (ih place ht hcalm hstrategy hlimit').imp
    intro _ notes s' h
    exact .wait h
  | pass stage job measure inside finish rest ihinside ihrest =>
    obtain ⟨hworker, hinside, hrest⟩ := ht
    simp only [Traffic.duration] at hlimit
    have hpass : (s.strategyFor job.worker) = strategy := by rw [hworker, hstrategy]
    have hnext (given : Job) (s₁ : Site) (hlike : s.Like s₁) :=
      ends_inside ⟨stage, job.id, place⟩ finish (ihinside (true :: place) hinside
        (hlike.calm hs) ((hlike.strategyFor worker).trans hstrategy)
        (by have hwall := hlike.wall; omega)) given
    have hcalm (given : Job) (s₁ : Site) (r : Except String Unit × Job) (notes : List Note)
        (s₂ : Site) (hlike : s.Like s₁) (hN : Happens.Within settings strategy
          ⟨stage, job.id, place⟩ inside finish given s₁ r notes s₂) : s₂.Calm := by
      obtain ⟨-, within, hwithin, -⟩ := hN
      exact hwithin.later.calm (hlike.calm hs)
    -- What is left is the outcome's note and the traffic that follows.
    have hfollows {o : Outcome} {notes : List Note} {s₁ s₂ : Site} (hquiet : s.Quiet s₁)
        (hgoes : (Pass.ofJob settings strategy measure ⟨stage, job.id, place⟩
          (s.workers.get? job.worker) job).Goes (Happens.Within settings strategy
            ⟨stage, job.id, place⟩ inside finish) s₁ o notes s₂) {f : Site → Note}
        (hf : f s₂ = o.note ⟨stage, job.id, place⟩ s₂) :
        Ends limit (do enter f; rest.journal settings (false :: place)) s₂ fun _ more s' ↦
          Happens settings strategy (.pass stage job measure inside finish rest) place s
            (notes ++ more) s' := by
      obtain ⟨hlater, hhappens⟩ := Happens.of_goes hquiet hgoes
      have hnote : Ends limit (enter f) s₂ fun _ notes s' ↦
          notes = [o.note ⟨stage, job.id, place⟩ s₂] ∧ s₂ = s' := Ends.enter ⟨by rw [hf], rfl⟩
      apply hnote.bind
      rintro _ _ _ ⟨rfl, rfl⟩
      apply (ihrest (false :: place) hrest (hlater.calm hs)
        ((hlater.strategyFor worker).trans hstrategy) _).imp
      · intro _ more s' h
        exact hhappens rest more s' h
      · have hwall := hlater.wall
        omega
    have hwall : s.wall ≤ limit := by omega
    cases stage with
    | schedule =>
      apply (ends_schedule hs hwall (by rw [hpass, hlocks]) rfl hnext).bind
      rintro ⟨result, job'⟩ notes s₂ ⟨o, hresult, s₁, hquiet, hgoes⟩
      obtain rfl : result = o.scheduled := hresult
      rw [hpass] at hgoes
      exact hfollows hquiet hgoes rfl
    | perform =>
      apply (ends_perform hs hwall (by rw [hpass, hlocks]) rfl hnext hcalm).bind
      rintro ⟨result, job'⟩ notes s₂ ⟨o, hresult, s₁, hquiet, hgoes⟩
      obtain rfl : result = o.performed := hresult
      rw [hpass] at hgoes
      exact hfollows hquiet hgoes rfl

end Journal

/-- Undisturbed traffic comes to an end before the calendar does, and what its journal says is what
happens. -/
theorem Traffic.happens (settings : Settings) {worker : String} (t : Traffic) {s : Site}
    (ht : t.Passes fun _ job _ ↦ job.worker = worker) (hs : s.Calm)
    (hlocks : (s.strategyFor worker).locks = true) :
    (¬ Overdue (s.wall + t.duration) → ∃ log s', t.journal? settings s = some (log, s')) ∧
      ∀ log s', t.journal? settings s = some (log, s') →
        Happens settings (s.strategyFor worker) t [] s log s' := by
  have hends := Journal.ends_journal settings hlocks t [] ht hs rfl (Nat.le_refl _) []
  rcases hends with ⟨u, notes, s', hrun, hhappens⟩ | ⟨hrun, hover⟩
  · rw [List.nil_append] at hrun
    have hjournal : t.journal? settings s = some (notes, s') := by
      rw [journal?, hrun]
      rfl
    refine ⟨fun _ ↦ ⟨notes, s', hjournal⟩, ?_⟩
    intro log s'' h
    cases hjournal.symm.trans h
    exact hhappens
  · have hjournal : t.journal? settings s = Option.none := by
      rw [journal?, hrun]
      rfl
    refine ⟨fun h ↦ absurd hover h, ?_⟩
    intro log s'' h
    cases hjournal.symm.trans h

theorem Traffic.happens_under (settings : Settings) {worker : String} {strategy : Strategy}
    (t : Traffic) {s : Site} (ht : t.Passes fun _ job _ ↦ job.worker = worker) (hs : s.Calm)
    (hstrategy : s.strategyFor worker = strategy) (hlocks : strategy.locks = true) :
    (¬ Overdue (s.wall + t.duration) → ∃ log s', t.journal? settings s = some (log, s')) ∧
      ∀ log s', t.journal? settings s = some (log, s') → Happens settings strategy t [] s log s' := by
  subst hstrategy
  exact t.happens settings ht hs hlocks

end UniqueJobs
