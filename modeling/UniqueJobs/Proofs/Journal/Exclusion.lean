import UniqueJobs.Proofs.Journal.Check
import UniqueJobs.Proofs.Traffic.Ownership

/-!
Instances of one job exclude each other. From when an instance is handed over to be performed until
a performance of it succeeds, the window is its own (`Happens.ledger`), and so nothing else of the
job runs inside it or after it has failed. Main statement: `Traffic.exclusive`.
-/

namespace UniqueJobs

open Entries

/-- Has an instance been handed over to be performed, with no performance of it succeeding since? -/
def Owned (J : JobId) (log : List Note) : Prop :=
  ∃ early place job s late, log = early ++ .handed ⟨.perform, J, place⟩ job s :: late ∧
    ∀ p s', .finished ⟨.perform, J, p⟩ (.ok ()) s' ∉ late

/-- Does every instance that owns the window hold it? -/
def Kept (k : JobKey) (log : List Note) (s : Site) : Prop :=
  ∀ J, Owned J log → s.holder? k = some J

abbrev KeptAt (k : JobKey) (log : List Note) (n : Note) : Prop := Kept k log n.before

/-- No waiting outlasts the window. -/
def Unlapsed (k : JobKey) (log : List Note) : Prop :=
  ∀ before after, .waited before after ∈ log → ∀ J, before.holder? k = some J →
    after.holder? k = some J

/-- No performance of an instance is called from inside another performance of it. -/
def Unnested (log : List Note) : Prop :=
  ∀ n ∈ log, ∀ m ∈ log, ∀ outer inner, n.caller? = some outer → m.caller? = some inner →
    outer.stage = .perform → inner.stage = .perform → inner.id = outer.id → ¬ outer.Encloses inner

theorem Unlapsed.mono {k : JobKey} {log notes : List Note} (h : Unlapsed k log)
    (hsub : notes ⊆ log) : Unlapsed k notes := fun before after hn ↦ h before after (hsub hn)

theorem Unnested.mono {log notes : List Note} (h : Unnested log) (hsub : notes ⊆ log) :
    Unnested notes := fun n hn m hm ↦ h n (hsub hn) m (hsub hm)

/-- A note makes an instance the owner, or leaves it the owner, and only these. -/
theorem Owned.of_concat {J : JobId} {log : List Note} {n : Note} (h : Owned J (log ++ [n])) :
    (∃ place job s, n = .handed ⟨.perform, J, place⟩ job s) ∨
      Owned J log ∧ ∀ p s, n ≠ .finished ⟨.perform, J, p⟩ (.ok ()) s := by
  obtain ⟨early, place, job, s, late, heq, hlate⟩ := h
  rcases List.eq_nil_or_concat late with rfl | ⟨init, last, rfl⟩
  · have hlast := List.append_inj_right' heq rfl
    exact .inl ⟨place, job, s, List.singleton_inj.mp hlast⟩
  · have hsplit : log ++ [n] = (early ++ .handed ⟨.perform, J, place⟩ job s :: init) ++ [last] := by
      simpa using heq
    obtain ⟨rfl, hlast⟩ := List.append_inj' hsplit rfl
    obtain rfl := List.singleton_inj.mp hlast
    simp only [List.concat_eq_append, List.mem_append, not_or] at hlate
    refine .inr ⟨⟨early, place, job, s, init, rfl, fun p s' ↦ (hlate p s').1⟩, ?_⟩
    rintro p s' rfl
    exact (hlate p s').2 List.mem_cons_self

theorem Owned.of_append {J : JobId} {log more : List Note} (h : Owned J log)
    (hmore : ∀ p s, .finished ⟨.perform, J, p⟩ (.ok ()) s ∉ more) : Owned J (log ++ more) := by
  obtain ⟨early, place, job, s, late, rfl, hlate⟩ := h
  refine ⟨early, place, job, s, late ++ more, by simp, ?_⟩
  intro p s'
  rw [List.mem_append, not_or]
  exact ⟨hlate p s', hmore p s'⟩

theorem owned_of_handed {J : JobId} (log : List Note) (place : List Bool) (job : Job) (s : Site)
    {late : List Note} (hlate : ∀ p s', .finished ⟨.perform, J, p⟩ (.ok ()) s' ∉ late) :
    Owned J (log ++ .handed ⟨.perform, J, place⟩ job s :: late) :=
  ⟨log, place, job, s, late, rfl, hlate⟩

namespace Kept

variable {k : JobKey} {M : Measures} {caller : Caller} {log notes : List Note} {n : Note}
  {s s' : Site}

theorem still (h : Kept k log s) (hs : s.Still s') : Kept k log s' := by
  intro J hJ
  rw [hs.holder?]
  exact h J hJ

theorem concat (h : Kept k log s) (hn : ∀ caller job s, n ≠ .handed caller job s) :
    Kept k (log ++ [n]) s := by
  intro J hJ
  rcases hJ.of_concat with ⟨place, job, s, rfl⟩ | ⟨hJ, -⟩
  · exact absurd rfl (hn _ _ _)
  · exact h J hJ

theorem ledger_of_touches (hlog : Kept k log s) (h : Chain (Touch k M caller) s notes s') :
    Ledger (KeptAt k) (Kept k) log notes s' := by
  induction h generalizing log with
  | rest hstill => exact .nil (hlog.still hstill)
  | step hstill hn _ ih =>
    have hbefore := hlog.still hstill
    refine (Ledger.one hbefore ?_).append ih
    apply Kept.concat
    · intro J hJ
      exact hn.holder?_after (hbefore J hJ)
    · rintro _ _ _ rfl
      cases hn

theorem ledger_of_outcome (hlog : Kept k log s) (o : Outcome) (caller : Caller) :
    Ledger (KeptAt k) (Kept k) log [o.note caller s] s := by
  refine .one ?_ (hlog.concat ?_)
  · rw [KeptAt, Outcome.before_note]
    exact hlog
  · intro other job s'
    rw [Outcome.note]
    cases caller.stage <;> simp

end Kept

namespace Pass

variable {k : JobKey} {p : Pass} {s s' : Site} {log notes : List Note}

theorem Barred.ledger {o : Outcome} (h : p.Barred s o notes s') (hkey : p.claimant.key = k)
    (hlog : Kept k log s) :
    Ledger (KeptAt k) (Kept k) log (notes ++ [o.note p.caller s']) s' :=
  (hlog.ledger_of_touches (h.chain (M := fun _ ↦ True) hkey trivial)).append
    fun hnext ↦ hnext.ledger_of_outcome o p.caller

theorem Enters.ledger {held : Bool} {given : Job} (h : p.Enters s held notes given s')
    (hkey : p.claimant.key = k) (hown : s'.holder? k = some p.caller.id) (hlog : Kept k log s) :
    Ledger (KeptAt k) (Kept k) log (notes ++ [.handed p.caller given s']) s' := by
  apply (hlog.ledger_of_touches (h.chain (M := fun _ ↦ True) hkey trivial)).append
  intro hnext
  refine .one hnext ?_
  intro J hJ
  rcases hJ.of_concat with ⟨place, job, s, heq⟩ | ⟨hJ, -⟩
  · rw [(Note.handed.inj heq).1] at hown
    exact hown
  · exact hnext J hJ

/-- The window is released only where a performance has succeeded, and then nothing is owned. -/
theorem Leaves.ledger {result : Except String Unit} (h : p.Leaves s true result notes s')
    (hstrategy : p.strategy = .untilExecuting) (hlog : Kept k log s)
    (hown : p.caller.stage = .perform → Owned p.caller.id log) :
    Ledger (KeptAt k) (Kept k) log
      (.finished p.caller result s :: notes ++ [(Outcome.ended result).note p.caller s']) s' := by
  have hfinished : Ledger (KeptAt k) (Kept k) log [.finished p.caller result s] s :=
    .one hlog (hlog.concat (by simp))
  have hafter : Kept k (log ++ [.finished p.caller result s]) s →
      Ledger (KeptAt k) (Kept k) (log ++ [.finished p.caller result s]) notes s' := by
    intro hnext
    cases h with
    | schedule _ hquiet => exact .nil (hnext.still hquiet.toStill)
    | kept _ _ _ hquiet => exact .nil (hnext.still hquiet.toStill)
    | cleared _ hcleared => cases hstrategy.symm.trans hcleared
    | released hstage _ hrelease =>
      cases hrelease with
      | @call _ _ _ s₁ _ _ hquiet hrest =>
        cases hrest
        refine .one (hnext.still hquiet.toStill) ?_
        intro J hJ
        -- Whoever owned the window would be the instance whose performance has succeeded.
        rcases hJ.of_concat with ⟨_, _, _, heq⟩ | ⟨hJ, -⟩
        · cases heq
        rcases hJ.of_concat with ⟨_, _, _, heq⟩ | ⟨hJ, hne⟩
        · cases heq
        have hholder := (hlog J hJ).symm.trans (hlog _ (hown hstage))
        obtain rfl := Option.some.inj hholder
        refine absurd ?_ (hne p.caller.place s)
        rw [← hstage]
  exact (hfinished.append hafter).append fun hnext ↦ hnext.ledger_of_outcome _ _

end Pass

theorem Unnested.not_finished {settings : Settings} {worker : String} {k : JobKey} {log : List Note}
    (hnest : Unnested log) {caller : Caller} {inside : Traffic} {given : Job} {s₁ s₂ : Site}
    {within : List Note} (hstage : caller.stage = .perform)
    (hhanded : .handed caller given s₁ ∈ log) (hsub : within ⊆ log)
    (hinside : inside.Prompt settings worker k)
    (hwithin : Happens settings .untilExecuting inside (true :: caller.place) s₁ within s₂)
    (p : List Bool) (s : Site) : .finished ⟨.perform, caller.id, p⟩ (.ok ()) s ∉ within := by
  intro hn
  have hplaces := hwithin.places (hinside.imp fun _ _ _ h ↦ h.2.1)
  exact hnest _ hhanded _ (hsub hn) caller _ rfl rfl hstage rfl rfl (hplaces _ hn _ rfl)

/-- Owners hold the window from one end of a run to the other. -/
theorem Happens.ledger {settings : Settings} {k : JobKey} {worker : String} {t : Traffic}
    {place : List Bool} {s s' : Site} {log notes : List Note}
    (h : Happens settings .untilExecuting t place s notes s') (ht : t.Prompt settings worker k)
    (hs : Sound k s.clock s.store.entries) (hlapse : Unlapsed k notes) (hnest : Unnested notes)
    (hlog : Kept k log s) : Ledger (KeptAt k) (Kept k) log notes s' := by
  induction h generalizing log with
  | none => exact .nil hlog
  | @wait d _ _ s _ notes _ ih =>
    have hwait : Ledger (KeptAt k) (Kept k) log [.waited s (s.advance d)] (s.advance d) := by
      refine .one hlog (Kept.concat ?_ (by simp))
      intro J hJ
      exact hlapse s _ List.mem_cons_self J (hlog J hJ)
    have hsub := List.subset_cons_self (.waited s (s.advance d)) notes
    exact hwait.append (ih ht (hs.wait (Nat.le_add_right _ _)) (hlapse.mono hsub) (hnest.mono hsub))
  | barred hquiet hbarred _ ih =>
    obtain ⟨⟨-, hkey, -⟩, -, hrest⟩ := ht
    rw [← hquiet.clock, ← hquiet.store] at hs
    have hs' := hbarred.sound (Pass.key_ofJob.trans hkey) hs
    have hown := hbarred.ledger (Pass.key_ofJob.trans hkey) (hlog.still hquiet.toStill)
    have hall := hown.append (ih hrest hs' (hlapse.mono (by simp)) (hnest.mono (by simp)))
    simpa using hall
  | @through stage job given _ _ finish _ place _ before within after more _ _ s₂ s₃ s₄ _ hquiet
      henters hwithin hleaves _ _ ihinside ihrest =>
    obtain ⟨⟨-, hkey, hrunAt⟩, hinside, hrest⟩ := ht
    rw [← hquiet.clock, ← hquiet.store] at hs
    have hs₂ := henters.sound (Pass.key_ofJob.trans hkey) hs
    have hs₃ := hwithin.sound (hinside.imp fun _ _ _ h ↦ h.2.1) hs₂
    have hs₄ := hleaves.sound (Pass.key_ofJob.trans hkey) hs₃
    obtain ⟨rfl, hholder, -⟩ := henters.holder?_of_prompt hkey hrunAt hs
    have hsub : within ⊆ before ++ (.handed ⟨stage, job.id, place⟩ given s₂ :: within) ++
        (.finished ⟨stage, job.id, place⟩ (finish given).1 s₃ :: after) ++
        ((Outcome.ended (finish given).1).note ⟨stage, job.id, place⟩ s₄ :: more) := by
      intro n hn
      simp [hn]
    have hsub' : more ⊆ before ++ (.handed ⟨stage, job.id, place⟩ given s₂ :: within) ++
        (.finished ⟨stage, job.id, place⟩ (finish given).1 s₃ :: after) ++
        ((Outcome.ended (finish given).1).note ⟨stage, job.id, place⟩ s₄ :: more) := by
      intro n hn
      simp [hn]
    have hfirst := henters.ledger (Pass.key_ofJob.trans hkey) hholder (hlog.still hquiet.toStill)
    have hwhile := hfirst.append (ihinside hinside hs₂ (hlapse.mono hsub) (hnest.mono hsub))
    -- Nothing inside has succeeded in the place of the instance, so it is the owner when it leaves.
    have hown (hstage : stage = .perform) : Owned job.id (log ++ (before ++
        [.handed ⟨stage, job.id, place⟩ given s₂] ++ within)) := by
      subst hstage
      have hhanded : .handed ⟨.perform, job.id, place⟩ given s₂ ∈ before ++
          (.handed ⟨.perform, job.id, place⟩ given s₂ :: within) ++
          (.finished ⟨.perform, job.id, place⟩ (finish given).1 s₃ :: after) ++
          ((Outcome.ended (finish given).1).note ⟨.perform, job.id, place⟩ s₄ :: more) := by
        simp
      have hsucceeds := hnest.not_finished rfl hhanded hsub hinside hwithin
      simpa using owned_of_handed (log ++ before) place given s₂ hsucceeds
    have hall := (hwhile.append fun hnext ↦ hleaves.ledger rfl hnext hown).append
      (ihrest hrest hs₄ (hlapse.mono hsub') (hnest.mono hsub'))
    simpa using hall

/-- What the instances of one job make of each other's performances. -/
structure Exclusive (k : JobKey) (log : List Note) : Prop where
  checks : ∀ caller result s, .performed caller result s ∈ log → ∃ n ∈ log, n.Checks caller
  enters : ∀ n ∈ log, ∀ caller, caller.stage = .perform → n.Checks caller →
    ((∃ job s, .handed caller job s ∈ log) ↔
      n.before.store.entries.live? n.before.clock k.text = none ∨
        n.before.holder? k = some caller.id)
  excludes : ∀ outer job s, outer.stage = .perform → .handed outer job s ∈ log →
    ∀ inner, outer.Encloses inner → inner.id ≠ outer.id →
      (∀ result s', .performed inner result s' ∈ log → result = .ok (.skipped outer.id)) ∧
      ∀ result s', .scheduled inner result s' ∈ log → result = .ok (.dropped outer.id)
  releases : ∀ caller s, caller.stage = .perform → .finished caller (.ok ()) s ∈ log →
    ∃ s', .performed caller (.ok (.executed ())) s' ∈ log ∧
      ∀ r : Record, s'.store.entries.live? s'.clock (r.name k) = none
  /-- After a failure the window is the instance's own until a performance of it succeeds. -/
  keeps : ∀ caller e s, caller.stage = .perform → .finished caller (.error e) s ∈ log →
    ∃ early s' late, log = early ++ .performed caller (.error (.job e)) s' :: late ∧
      s'.holder? k = some caller.id ∧ ∀ middle n rest, late = middle ++ n :: rest →
        (∀ p s₁, .finished ⟨.perform, caller.id, p⟩ (.ok ()) s₁ ∉ middle) →
          n.before.holder? k = some caller.id ∧
          ∀ other, other.stage = .perform → n.Checks other →
            (other.id = caller.id → ∃ job s₁, .handed other job s₁ ∈ log) ∧
            (other.id ≠ caller.id → ∃ s₁, .performed other (.ok (.skipped caller.id)) s₁ ∈ log)

/-- The continuation of an instance in a journal, and what comes after it. -/
inductive Continued (settings : Settings) (worker : String) (k : JobKey) (caller : Caller)
    (log : List Note) : Prop
  | intro {inside : Traffic} {given : Job} {result : Except String Unit}
      {first within after last : List Note} {s₁ s₂ s₃ : Site}
      (hlog : log = first ++ (.handed caller given s₁ :: within ++ (.finished caller result s₂ ::
        after ++ ((Outcome.ended result).note caller s₃ :: last))))
      (hinside : inside.Prompt settings worker k) (hs : Sound k s₁.clock s₁.store.entries)
      (hwithin : Happens settings .untilExecuting inside (true :: caller.place) s₁ within s₂)
      (hafter : ∀ n ∈ after, n.isOfContinuation = false)
      (hreleased : caller.stage = .perform → result = .ok () →
        ∀ r : Record, s₃.store.entries.live? s₃.clock (r.name k) = none)
      (hown : ∀ n ∈ log, n.caller? = some caller → n.isOfContinuation = true →
        n = .handed caller given s₁ ∨ n = .finished caller result s₂)
      (hinner : ∀ n ∈ log, ∀ inner, n.caller? = some inner → caller.Encloses inner → n ∈ within)

theorem Pass.Leaves.live?_eq_none {k : JobKey} {p : Pass} {s s' : Site} {notes : List Note}
    (h : p.Leaves s true (.ok ()) notes s') (hkey : p.claimant.key = k)
    (hstage : p.caller.stage = .perform) (hstrategy : p.strategy = .untilExecuting)
    (hs : Sound k s.clock s.store.entries) (r : Record) :
    s'.store.entries.live? s'.clock (r.name k) = none := by
  subst hkey
  cases h with
  | schedule hschedule => cases hstage.symm.trans hschedule
  | kept _ _ hkept => simp at hkept
  | cleared _ hcleared => cases hstrategy.symm.trans hcleared
  | released _ _ h =>
    rw [h.entries_of_one, h.like.clock]
    exact (hs.release_eq_none p.claimant.locations.keys).2 r

theorem Happens.continued {settings : Settings} {worker : String} {k : JobKey} {t : Traffic}
    {place : List Bool} {s s' : Site} {log : List Note} {caller : Caller}
    (h : Happens settings .untilExecuting t place s log s') (ht : t.Prompt settings worker k)
    (hs : Sound k s.clock s.store.entries) {n : Note} (hn : n ∈ log)
    (hcaller : n.caller? = some caller) (hcontinues : n.isOfContinuation = true) :
    Continued settings worker k caller log := by
  have hlocated := h.locate (k := k) (M := fun _ ↦ True) ht (fun _ _ _ h ↦ ⟨h.2.1, trivial⟩) hn
    hcaller
  cases hlocated with
  | @intro job measure inside finish o first own last s₁ s₂ hP hid hinside hfirst hgoes hbefore
      hlast =>
    obtain ⟨-, hkey, hrunAt⟩ := hP
    have hs₁ := hfirst.sound hs
    cases hgoes with
    | barred hbarred =>
      have htouches := hbarred.chain (M := fun _ ↦ True) (Pass.key_ofJob.trans hkey) trivial
      rcases Caller.mem_own hbefore hlast hn hcaller with hn | rfl
      · cases hcontinues.symm.trans (htouches.forall_mem n hn).isOfContinuation
      · cases hcontinues.symm.trans (Note.isOfContinuation_outcome _ _ _)
    | @through held result given given' before within after s₃ s₄ _ henters hnext hleaves =>
      obtain ⟨hresult, within, hwithin, rfl⟩ := hnext
      obtain rfl : result = (finish given).1 := congrArg Prod.fst hresult
      have htouches := henters.chain (M := fun _ ↦ True) (Pass.key_ofJob.trans hkey) trivial
      have hplaces := hwithin.places (hinside.imp fun _ _ _ h ↦ h.2.1)
      have hs₃ := henters.sound (Pass.key_ofJob.trans hkey) hs₁
      have hs₄ := hwithin.sound (hinside.imp fun _ _ _ h ↦ h.2.1) hs₃
      obtain ⟨rfl, -, -⟩ := henters.holder?_of_prompt hkey hrunAt hs₁
      have hlog : first ++ (before ++ (.handed caller given s₃ :: within ++
          [.finished caller (finish given).1 s₄]) ++ after ++
          (Outcome.ended (finish given).1).note caller s₂ :: last) = (first ++ before) ++
            (.handed caller given s₃ :: within ++ (.finished caller (finish given).1 s₄ :: after ++
              ((Outcome.ended (finish given).1).note caller s₂ :: last))) := by
        simp
      refine .intro hlog hinside hs₃ hwithin hleaves.isOfContinuation ?_ ?_ ?_
      · intro hstage hok
        rw [hok] at hleaves
        exact hleaves.live?_eq_none (Pass.key_ofJob.trans hkey) hstage rfl hs₄
      · intro m hm hcaller hcontinues
        rcases Caller.mem_own hbefore hlast hm hcaller with hm | rfl
        · rcases Caller.mem_of_places hplaces hm hcaller with hm | hm | hm | hm
          · cases hcontinues.symm.trans (htouches.forall_mem m hm).isOfContinuation
          · exact .inl hm
          · exact .inr hm
          · cases hcontinues.symm.trans (hleaves.isOfContinuation m hm)
        · cases hcontinues.symm.trans (Note.isOfContinuation_outcome _ _ _)
      · intro m hm inner hcaller hencloses
        have hleft := (hleaves.chain (M := fun _ ↦ True) (Pass.key_ofJob.trans hkey)).callers
        exact hencloses.mem_within hbefore hlast (fun n hn ↦ (htouches.forall_mem n hn).move_by.2)
          hleft (Outcome.caller?_note _ _ _) hm hcaller

section

variable {settings : Settings} {worker : String} {k : JobKey} {t : Traffic} {place : List Bool}
  {s s' : Site} {log : List Note} {caller : Caller}

theorem holder?_of_owned {J : JobId} {early late : List Note} {n : Note}
    (h : Attested (KeptAt k) [] (early ++ n :: late)) (hown : Owned J early) :
    n.before.holder? k = some J := by
  have hn := h.at_note
  rw [List.nil_append] at hn
  exact hn J hown

theorem Fate.exists_skipped {J : JobId} {n : Note} (h : Fate k caller log) (hn : n ∈ log)
    (hcheck : n.Checks caller) (hstage : caller.stage = .perform)
    (hholder : n.before.holder? k = some J) (hne : caller.id ≠ J) :
    ∃ s, .performed caller (.ok (.skipped J)) s ∈ log := by
  obtain ⟨s, hmem, -⟩ := h.turned_away hn hcheck hholder hne
  rw [Outcome.note, hstage] at hmem
  exact ⟨s, hmem⟩

theorem Continued.excludes (h : Continued settings worker k caller log)
    (hstage : caller.stage = .perform) (hkept : Attested (KeptAt k) [] log)
    (hnest : Unnested log) {inner : Caller} (hencloses : caller.Encloses inner)
    (hne : inner.id ≠ caller.id) :
    (∀ result s, .performed inner result s ∈ log → result = .ok (.skipped caller.id)) ∧
      ∀ result s, .scheduled inner result s ∈ log → result = .ok (.dropped caller.id) := by
  obtain ⟨stage, id, place⟩ := caller
  obtain rfl : stage = .perform := hstage
  cases h with
  | @intro inside given result first within after last s₁ s₂ s₃ hlog hinside hs hwithin _ _ _
      hinner =>
    have hhanded : .handed ⟨.perform, id, place⟩ given s₁ ∈ log := by simp [hlog]
    have hsub : within ⊆ log := by
      intro n hn
      simp [hlog, hn]
    have hsucceeds := hnest.not_finished rfl hhanded hsub hinside hwithin
    -- All the while the window is that of the instance whose continuation it is.
    have hholder : ∀ n ∈ within, n.before.holder? k = some id := by
      intro n hn
      obtain ⟨early, late, rfl⟩ := List.append_of_mem hn
      have hsplit : log = (first ++ .handed ⟨.perform, id, place⟩ given s₁ :: early) ++ n ::
          (late ++ (.finished ⟨.perform, id, place⟩ result s₂ :: after ++
            ((Outcome.ended result).note ⟨.perform, id, place⟩ s₃ :: last))) := by
        simp [hlog]
      rw [hsplit] at hkept
      apply holder?_of_owned hkept (owned_of_handed first place given s₁ _)
      intro p s hfinished
      exact hsucceeds p s (List.mem_append_left _ hfinished)
    constructor
    · intro result s hmem
      have hmem := hinner _ hmem inner rfl hencloses
      have hfate := hwithin.fate hinside hs hmem rfl
      obtain ⟨n, hn, hcheck⟩ := hfate.exists_check
      exact hfate.performed_eq hn hcheck (hholder n hn) hne hmem
    · intro result s hmem
      have hmem := hinner _ hmem inner rfl hencloses
      have hfate := hwithin.fate hinside hs hmem rfl
      obtain ⟨n, hn, hcheck⟩ := hfate.exists_check
      exact hfate.scheduled_eq hn hcheck (hholder n hn) hne hmem

theorem Continued.exists_failed (h : Continued settings worker k caller log)
    (hstage : caller.stage = .perform) (hkept : Attested (KeptAt k) [] log)
    (hnest : Unnested log) {e : String} {s : Site} (hmem : .finished caller (.error e) s ∈ log) :
    ∃ early s' late, log = early ++ .performed caller (.error (.job e)) s' :: late ∧
      s'.holder? k = some caller.id ∧ ∀ middle n rest, late = middle ++ n :: rest →
        (∀ p s₁, .finished ⟨.perform, caller.id, p⟩ (.ok ()) s₁ ∉ middle) →
          n.before.holder? k = some caller.id := by
  obtain ⟨stage, id, place⟩ := caller
  obtain rfl : stage = .perform := hstage
  cases h with
  | @intro inside given result first within after last s₁ s₂ s₃ hlog hinside hs hwithin hafter _
      hown hinner =>
    have hhanded : .handed ⟨.perform, id, place⟩ given s₁ ∈ log := by simp [hlog]
    have hsub : within ⊆ log := by
      intro n hn
      simp [hlog, hn]
    have hsucceeds := hnest.not_finished rfl hhanded hsub hinside hwithin
    rcases hown _ hmem rfl rfl with heq | heq
    · cases heq
    cases heq
    have hsplit : log = (first ++ .handed ⟨.perform, id, place⟩ given s₁ ::
        (within ++ .finished ⟨.perform, id, place⟩ (.error e) s :: after)) ++
          .performed ⟨.perform, id, place⟩ (.error (.job e)) s₃ :: last := by
      simp [hlog, Outcome.note, Outcome.performed]
    have hfails (p : List Bool) (s' : Site) : .finished ⟨.perform, id, p⟩ (.ok ()) s' ∉
        within ++ .finished ⟨.perform, id, place⟩ (.error e) s :: after := by
      intro hn
      rcases List.mem_append.mp hn with hn | hn
      · exact hsucceeds p s' hn
      rcases List.mem_cons.mp hn with heq | hn
      · cases heq
      · cases hafter _ hn
    have howned := owned_of_handed first place given s₁ hfails
    generalize first ++ .handed ⟨.perform, id, place⟩ given s₁ ::
      (within ++ .finished ⟨.perform, id, place⟩ (.error e) s :: after) = early at hsplit howned
    refine ⟨early, s₃, last, hsplit, ?_, ?_⟩
    · rw [hsplit] at hkept
      exact holder?_of_owned hkept howned
    · rintro middle n rest rfl hmiddle
      rw [← List.cons_append, ← List.append_assoc] at hsplit
      rw [hsplit] at hkept
      apply holder?_of_owned hkept (howned.of_append _)
      intro p s' hn
      rcases List.mem_cons.mp hn with heq | hn
      · cases heq
      · exact hmiddle p s' hn

theorem Happens.exclusion (h : Happens settings .untilExecuting t place s log s')
    (ht : t.Prompt settings worker k) (hs : Sound k s.clock s.store.entries)
    (hkept : Attested (KeptAt k) [] log) (hnest : Unnested log) : Exclusive k log where
  checks caller result s hn := (h.fate ht hs hn rfl).exists_check
  enters n hn caller _ hcheck := (h.fate ht hs hn hcheck.caller?).handed_iff hn hcheck
  excludes outer job s hstage hhanded inner hencloses hne :=
    (h.continued ht hs hhanded rfl rfl).excludes hstage hkept hnest hencloses hne
  releases caller s hstage hfinished := by
    obtain ⟨stage, id, place⟩ := caller
    obtain rfl : stage = .perform := hstage
    obtain ⟨hlog, hinside, hs₁, hwithin, -, hreleased, hown, -⟩ :=
      h.continued ht hs hfinished rfl rfl
    rcases hown _ hfinished rfl rfl with heq | heq
    · cases heq
    cases heq
    exact ⟨_, by simp [hlog, Outcome.note, Outcome.performed], hreleased rfl rfl⟩
  keeps caller e s hstage hfinished := by
    obtain ⟨early, s', late, hlog, hholder, hlate⟩ :=
      (h.continued ht hs hfinished rfl rfl).exists_failed hstage hkept hnest hfinished
    refine ⟨early, s', late, hlog, hholder, ?_⟩
    intro middle n rest hsplit hmiddle
    have hn := hlate middle n rest hsplit hmiddle
    refine ⟨hn, fun other hother hcheck ↦ ?_⟩
    have hmem : n ∈ log := by simp [hlog, hsplit]
    have hfate := h.fate ht hs hmem hcheck.caller?
    constructor
    · intro hid
      rw [← hid] at hn
      exact (hfate.handed_iff hmem hcheck).mpr (.inr hn)
    · exact hfate.exists_skipped hmem hcheck hother hn

end

theorem unnested_of_headlines {log : List Note} {headlines : List Headline}
    (hlog : log.map Note.headline = headlines)
    (h : ∀ outer ∈ headlines.filterMap Headline.caller?, ∀ inner ∈ headlines.filterMap
      Headline.caller?, outer.stage = .perform → inner.stage = .perform → inner.id = outer.id →
        ¬ outer.Encloses inner) : Unnested log := by
  have hmem {n : Note} {caller : Caller} (hn : n ∈ log) (hcaller : n.caller? = some caller) :
      caller ∈ headlines.filterMap Headline.caller? := by
    rw [← hlog, List.filterMap_map, List.mem_filterMap]
    exact ⟨n, hn, (n.caller?_headline).trans hcaller⟩
  intro n hn m hm outer inner houter hinner
  exact h outer (hmem hn houter) inner (hmem hm hinner)

theorem unlapsed_of_headlines {k : JobKey} {log : List Note} {headlines : List Headline}
    (hlog : log.map Note.headline = headlines) (h : .waited ∉ headlines) : Unlapsed k log := by
  intro before after hn
  have hheadline := List.mem_map_of_mem (f := Note.headline) hn
  rw [hlog] at hheadline
  exact absurd hheadline h

namespace Traffic

/-- Under the strategy that holds the window until a job has run, the instances of one job exclude
each other. -/
theorem exclusive {settings : Settings} {worker : String} {k : JobKey} (t : Traffic) {s : Site}
    (ht : t.Prompt settings worker k) (hs : s.Calm) (hempty : s.store.entries = .empty)
    (hstrategy : s.strategyFor worker = .untilExecuting) :
    (¬ Overdue (s.wall + t.duration) → ∃ log s', t.journal? settings s = some (log, s')) ∧
      ∀ log s', t.journal? settings s = some (log, s') → Unlapsed k log → Unnested log →
        Exclusive k log := by
  have hlocks : (s.strategyFor worker).locks = true := by
    rw [hstrategy]
    rfl
  obtain ⟨hends, hhappens⟩ := t.happens settings (ht.imp fun _ _ _ h ↦ h.1) hs hlocks
  refine ⟨hends, ?_⟩
  intro log s' hrun hlapse hnest
  have hsound : Sound k s.clock s.store.entries := by
    rw [hempty]
    exact .empty k s.clock
  have hnone : Kept k [] s := by
    rintro J ⟨early, place, job, s₁, late, heq, -⟩
    simp at heq
  have hrun := hhappens log s' hrun
  rw [hstrategy] at hrun
  exact hrun.exclusion ht hsound (hrun.ledger ht hsound hlapse hnest hnone).1 hnest

/-- One instance fails at first, and another one is scheduled and performed while it runs and
afterwards. -/
def failing : Traffic :=
  through .schedule (pieceOfWork "a") none <|
    pass .perform (pieceOfWork "a") (fun _ location baseline ↦ Lsn.distance location baseline)
      (through .schedule (pieceOfWork "b") none (through .perform (pieceOfWork "b") none none))
      (fun job ↦ (.error "the disk is full", job)) <|
        through .perform (pieceOfWork "b") none (through .perform (pieceOfWork "a") none none)

def failingHeadlines : List Headline :=
  [.called ⟨.schedule, ⟨"a"⟩, []⟩ false, .handed ⟨.schedule, ⟨"a"⟩, []⟩,
    .finished ⟨.schedule, ⟨"a"⟩, []⟩ false, .scheduled ⟨.schedule, ⟨"a"⟩, []⟩ .passed,
    .called ⟨.perform, ⟨"a"⟩, [false]⟩ false, .handed ⟨.perform, ⟨"a"⟩, [false]⟩,
    .called ⟨.schedule, ⟨"b"⟩, [true, false]⟩ false,
    .scheduled ⟨.schedule, ⟨"b"⟩, [true, false]⟩ (.barred ⟨"a"⟩),
    .called ⟨.perform, ⟨"b"⟩, [false, true, false]⟩ false,
    .performed ⟨.perform, ⟨"b"⟩, [false, true, false]⟩ (.barred ⟨"a"⟩),
    .finished ⟨.perform, ⟨"a"⟩, [false]⟩ true, .performed ⟨.perform, ⟨"a"⟩, [false]⟩ .failed,
    .called ⟨.perform, ⟨"b"⟩, [false, false]⟩ false,
    .performed ⟨.perform, ⟨"b"⟩, [false, false]⟩ (.barred ⟨"a"⟩),
    .called ⟨.perform, ⟨"a"⟩, [false, false, false]⟩ false,
    .handed ⟨.perform, ⟨"a"⟩, [false, false, false]⟩,
    .finished ⟨.perform, ⟨"a"⟩, [false, false, false]⟩ false,
    .called ⟨.perform, ⟨"a"⟩, [false, false, false]⟩ false,
    .performed ⟨.perform, ⟨"a"⟩, [false, false, false]⟩ .passed]

/-- While the one that has failed owns the window, the other one is turned away each time. -/
theorem exclusive_failing : ∃ log s',
    failing.journal? .default (shop "until_executing") = some (log, s') ∧
      log.map Note.headline = failingHeadlines ∧ Exclusive ⟨"k"⟩ log := by
  have hrun : (failing.journal? .default (shop "until_executing")).map
      (fun r ↦ r.1.map Note.headline) = some failingHeadlines := by
    decide +kernel
  obtain ⟨⟨log, s'⟩, hjournal, hlog⟩ := Option.map_eq_some_iff.mp hrun
  have hprompt : failing.Prompt .default "w" ⟨"k"⟩ := by
    unfold failing
    exact ⟨⟨rfl, rfl, rfl⟩, trivial, ⟨rfl, rfl, rfl⟩, ⟨⟨rfl, rfl, rfl⟩, trivial, ⟨rfl, rfl, rfl⟩,
      trivial, trivial⟩, ⟨rfl, rfl, rfl⟩, trivial, ⟨rfl, rfl, rfl⟩, trivial, trivial⟩
  have hlapse : Unlapsed ⟨"k"⟩ log := unlapsed_of_headlines hlog (by decide)
  have hnest : Unnested log := unnested_of_headlines hlog (by decide)
  exact ⟨log, s', hjournal, hlog, (exclusive failing hprompt ⟨rfl, rfl⟩ rfl rfl).2 log s' hjournal
    hlapse hnest⟩

end Traffic

end UniqueJobs
