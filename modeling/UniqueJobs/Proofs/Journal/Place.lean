import UniqueJobs.Proofs.Journal.Chain

/-!
Where an instance stands in a run. Every pass has a place of its own in the traffic, so all the
notes of one instance are those of one pass, and the notes of what it lets through stand inside that
pass. Main statement: `Happens.locate`.
-/

namespace UniqueJobs

theorem suffix_cons_inj {b b' : Bool} {place xs : List Bool} (h : b :: place <:+ xs)
    (h' : b' :: place <:+ xs) : b = b' := by
  have hlength : (b :: place).length = (b' :: place).length := rfl
  have heq := (List.suffix_of_suffix_length_le h h' (Nat.le_of_eq hlength)).eq_of_length hlength
  exact (List.cons.inj heq).1

theorem not_cons_suffix_self (b : Bool) (place : List Bool) : ¬ b :: place <:+ place := by
  intro h
  have hlength := h.length_le
  rw [List.length_cons] at hlength
  omega

/-- These notes are neither of an instance nor of anything that it lets through. -/
def Caller.Apart (caller : Caller) (notes : List Note) : Prop :=
  ∀ n ∈ notes, ∀ other, n.caller? = some other → other ≠ caller ∧ ¬ caller.Encloses other

namespace Caller

variable {caller : Caller} {notes more : List Note}

theorem apart_nil (caller : Caller) : caller.Apart [] := by
  intro n hn
  cases hn

theorem Apart.append (h : caller.Apart notes) (h' : caller.Apart more) :
    caller.Apart (notes ++ more) := by
  intro n hn
  rcases List.mem_append.mp hn with hn | hn
  · exact h n hn
  · exact h' n hn

theorem Encloses.irrefl (caller : Caller) : ¬ caller.Encloses caller :=
  not_cons_suffix_self true caller.place

/-- What is let through on the way to an instance is apart from it. -/
theorem apart_of_outer {outer : Caller} {b : Bool} (hcaller : b :: outer.place <:+ caller.place)
    (h : ∀ n ∈ notes, n.caller? = some outer) : caller.Apart notes := by
  intro n hn other hother
  obtain rfl := Option.some.inj ((h n hn).symm.trans hother)
  constructor
  · rintro rfl
    exact not_cons_suffix_self b _ hcaller
  · intro hencloses
    have hdown := (List.suffix_cons true caller.place).trans hencloses
    exact not_cons_suffix_self b _ (hcaller.trans hdown)

theorem apart_of_branch {b b' : Bool} {place : List Bool} (hne : b ≠ b')
    (hcaller : b :: place <:+ caller.place)
    (h : ∀ n ∈ notes, ∀ other, n.caller? = some other → b' :: place <:+ other.place) :
    caller.Apart notes := by
  intro n hn other hother
  have hother := h n hn other hother
  constructor
  · rintro rfl
    exact hne (suffix_cons_inj hcaller hother)
  · intro hencloses
    have hdown := (List.suffix_cons true caller.place).trans hencloses
    exact hne (suffix_cons_inj (hcaller.trans hdown) hother)

theorem apart_of_rest
    (h : ∀ n ∈ notes, ∀ other, n.caller? = some other → false :: caller.place <:+ other.place) :
    caller.Apart notes := by
  intro n hn other hother
  have hother := h n hn other hother
  constructor
  · rintro rfl
    exact not_cons_suffix_self false _ hother
  · intro hencloses
    cases suffix_cons_inj hencloses hother

theorem mem_own {first own last : List Note} {n m : Note} (hfirst : caller.Apart first)
    (hlast : caller.Apart last) (hn : n ∈ first ++ (own ++ m :: last))
    (hcaller : n.caller? = some caller) : n ∈ own ∨ n = m := by
  rcases List.mem_append.mp hn with hn | hn
  · exact absurd rfl (hfirst n hn caller hcaller).1
  rcases List.mem_append.mp hn with hn | hn
  · exact .inl hn
  rcases List.mem_cons.mp hn with rfl | hn
  · exact .inr rfl
  · exact absurd rfl (hlast n hn caller hcaller).1

theorem mem_of_places {given : Job} {result : Except String Unit} {before within after : List Note}
    {s s' : Site} {n : Note}
    (hplaces : ∀ n ∈ within, ∀ other, n.caller? = some other → true :: caller.place <:+ other.place)
    (hn : n ∈ before ++ (.handed caller given s :: within ++ [.finished caller result s']) ++ after)
    (hcaller : n.caller? = some caller) :
    n ∈ before ∨ n = .handed caller given s ∨ n = .finished caller result s' ∨ n ∈ after := by
  have hsplit : n ∈ before ∨ n = .handed caller given s ∨ n ∈ within ∨
      n = .finished caller result s' ∨ n ∈ after := by
    simpa [or_assoc] using hn
  rcases hsplit with hn | hn | hn | hn | hn
  · exact .inl hn
  · exact .inr (.inl hn)
  · exact absurd (hplaces n hn caller hcaller) (not_cons_suffix_self true _)
  · exact .inr (.inr (.inl hn))
  · exact .inr (.inr (.inr hn))

/-- What an instance lets through is noted between its own notes. -/
theorem Encloses.mem_within {inner : Caller} {given : Job} {result : Except String Unit}
    {first before within after last : List Note} {s s' : Site} {n m : Note}
    (h : caller.Encloses inner) (hfirst : caller.Apart first) (hlast : caller.Apart last)
    (hbefore : ∀ n ∈ before, n.caller? = some caller)
    (hafter : ∀ n ∈ after, n.caller? = some caller) (hm : m.caller? = some caller)
    (hn : n ∈ first ++ (before ++ (.handed caller given s :: within ++
      [.finished caller result s']) ++ after ++ m :: last)) (hinner : n.caller? = some inner) :
    n ∈ within := by
  have hself (hself : n.caller? = some caller) : n ∈ within := by
    obtain rfl := Option.some.inj (hself.symm.trans hinner)
    exact absurd h (Encloses.irrefl caller)
  have hsplit : n ∈ first ∨ n ∈ before ∨ n = .handed caller given s ∨ n ∈ within ∨
      n = .finished caller result s' ∨ n ∈ after ∨ n = m ∨ n ∈ last := by
    simpa [or_assoc] using hn
  rcases hsplit with hn | hn | rfl | hn | rfl | hn | rfl | hn
  · exact absurd h (hfirst n hn inner hinner).2
  · exact hself (hbefore n hn)
  · exact hself rfl
  · exact hn
  · exact hself rfl
  · exact hself (hafter n hn)
  · exact hself hm
  · exact absurd h (hlast n hn inner hinner).2

end Caller

def Note.isOfContinuation : Note → Bool
  | handed .. | finished .. => true
  | _ => false

theorem Note.isOfContinuation_outcome (o : Outcome) (caller : Caller) (s : Site) :
    (o.note caller s).isOfContinuation = false := by
  rw [Outcome.note]
  cases caller.stage <;> rfl

theorem Touch.isOfContinuation {k : JobKey} {M : Measures} {caller : Caller} {n : Note}
    (h : Touch k M caller n) : n.isOfContinuation = false := by
  cases h
  rfl

theorem Pass.Leaves.isOfContinuation {p : Pass} {held : Bool} {result : Except String Unit}
    {s s' : Site} {notes : List Note} (h : p.Leaves s held result notes s') :
    ∀ n ∈ notes, n.isOfContinuation = false := by
  intro n hn
  obtain ⟨contact, s₁, rfl, -⟩ := h.exists_contact n hn
  rfl

variable {settings : Settings} {strategy : Strategy} {k : JobKey} {M : Measures}
  {P : Stage → Job → (String → String → String → Except LsnError Int64) → Prop} {caller : Caller}

theorem Chain.callers {s s' : Site} {notes : List Note}
    (h : Chain (Move.By k M caller) s notes s') : ∀ n ∈ notes, n.caller? = some caller :=
  fun n hn ↦ (h.forall_mem n hn).2

theorem Chain.moves {s s' : Site} {notes : List Note}
    (h : Chain (Move.By k M caller) s notes s') : Chain (Move k M) s notes s' :=
  h.imp fun _ hn ↦ hn.1

theorem Chain.places {s s' : Site} {notes : List Note} {place : List Bool}
    (h : Chain (Move.Below k M place) s notes s') :
    ∀ n ∈ notes, ∀ other, n.caller? = some other → place <:+ other.place :=
  fun n hn ↦ (h.forall_mem n hn).2

theorem Happens.places {t : Traffic} {place : List Bool} {s s' : Site} {notes : List Note}
    (h : Happens settings strategy t place s notes s')
    (ht : t.Passes fun _ job _ ↦ (job.identify settings.keyspace).1 = k) :
    ∀ n ∈ notes, ∀ other, n.caller? = some other → place <:+ other.place :=
  (h.chain (M := fun _ ↦ True) (ht.imp fun _ _ _ hkey ↦ ⟨hkey, trivial⟩)).places

/-- In what is noted from a site on, the pass of an instance and the notes before and after it. -/
inductive Located (settings : Settings) (strategy : Strategy) (k : JobKey) (M : Measures)
    (P : Stage → Job → (String → String → String → Except LsnError Int64) → Prop)
    (caller : Caller) (s : Site) : List Note → Prop
  | intro {job : Job} {measure : String → String → String → Except LsnError Int64}
      {inside : Traffic} {finish : Job → Except String Unit × Job}
      {o : Outcome} {first own last : List Note} {s₁ s₂ : Site}
      (hP : P caller.stage job measure) (hid : job.id = caller.id) (hinside : inside.Passes P)
      (hfirst : Chain (Move k M) s first s₁)
      (hgoes : (Pass.ofJob settings strategy measure caller (s₁.workers.get? job.worker) job).Goes
        (Happens.Within settings strategy caller inside finish) s₁ o own s₂)
      (hbefore : caller.Apart first) (hafter : caller.Apart last) :
      Located settings strategy k M P caller s (first ++ (own ++ o.note caller s₂ :: last))

namespace Located

variable {s s' : Site} {notes more : List Note}

theorem prepend (h : Located settings strategy k M P caller s' notes)
    (hmore : Chain (Move k M) s more s') (hapart : caller.Apart more) :
    Located settings strategy k M P caller s (more ++ notes) := by
  cases h with
  | intro hP hid hinside hfirst hgoes hbefore hafter =>
    rw [← List.append_assoc]
    exact .intro hP hid hinside (hmore.append hfirst) hgoes (hapart.append hbefore) hafter

theorem append (h : Located settings strategy k M P caller s notes) (hapart : caller.Apart more) :
    Located settings strategy k M P caller s (notes ++ more) := by
  cases h with
  | intro hP hid hinside hfirst hgoes hbefore hafter =>
    have hall := Located.intro hP hid hinside hfirst hgoes hbefore (hafter.append hapart)
    simpa using hall

theorem of_goes {stage : Stage} {job : Job}
    {measure : String → String → String → Except LsnError Int64} {inside : Traffic}
    {finish : Job → Except String Unit × Job} {place : List Bool}
    {o : Outcome} {own : List Note} {s₁ s₂ : Site} (hP : P stage job measure)
    (hinside : inside.Passes P) (hstill : s.Still s₁)
    (hgoes : (Pass.ofJob settings strategy measure ⟨stage, job.id, place⟩
      (s.workers.get? job.worker) job).Goes
        (Happens.Within settings strategy ⟨stage, job.id, place⟩ inside finish) s₁ o own s₂)
    (hrest : Chain (Move.Below k M (false :: place)) s₂ more s') :
    Located settings strategy k M P ⟨stage, job.id, place⟩ s
      (own ++ o.note ⟨stage, job.id, place⟩ s₂ :: more) := by
  rw [← hstill.workers] at hgoes
  exact .intro hP rfl hinside (.rest hstill) hgoes (Caller.apart_nil _)
    (Caller.apart_of_rest hrest.places)

/-- What is inside a continuation is between the notes of the instance that lets it through. -/
theorem of_inside {outer : Caller} {within first last : List Note} {s₁ s₂ s₃ : Site}
    (h : Located settings strategy k M P caller s₁ within)
    (hbranch : true :: outer.place <:+ caller.place)
    (hfirst : Chain (Move.By k M outer) s first s₁) (hlast : Chain (Move.By k M outer) s₂ last s₃)
    (hrest : Chain (Move.Below k M (false :: outer.place)) s₃ more s') :
    Located settings strategy k M P caller s (first ++ (within ++ (last ++ more))) := by
  have hafter := (Caller.apart_of_outer hbranch hlast.callers).append
    (Caller.apart_of_branch Bool.noConfusion hbranch hrest.places)
  exact (h.append hafter).prepend hfirst.moves (Caller.apart_of_outer hbranch hfirst.callers)

/-- What comes after a pass stands after all the notes of the pass. -/
theorem of_rest {outer : Caller} {within first last : List Note} {s₁ s₂ s₃ : Site}
    (h : Located settings strategy k M P caller s₃ more)
    (hbranch : false :: outer.place <:+ caller.place)
    (hfirst : Chain (Move.By k M outer) s first s₁)
    (hwithin : Chain (Move.Below k M (true :: outer.place)) s₁ within s₂)
    (hlast : Chain (Move.By k M outer) s₂ last s₃) :
    Located settings strategy k M P caller s (first ++ (within ++ (last ++ more))) := by
  have hinside := h.prepend ((hwithin.imp fun _ hn ↦ hn.1).append hlast.moves)
    ((Caller.apart_of_branch Bool.noConfusion hbranch hwithin.places).append
      (Caller.apart_of_outer hbranch hlast.callers))
  have hall := hinside.prepend hfirst.moves (Caller.apart_of_outer hbranch hfirst.callers)
  rwa [List.append_assoc] at hall

end Located

/-- Every note of an instance is of its pass, and the run has been a chain up to there. -/
theorem Happens.locate {t : Traffic} {place : List Bool} {s s' : Site} {notes : List Note}
    (h : Happens settings strategy t place s notes s') (ht : t.Passes P)
    (hP : ∀ stage job measure, P stage job measure →
      (job.identify settings.keyspace).1 = k ∧ M measure)
    {n : Note} (hn : n ∈ notes) (hcaller : n.caller? = some caller) :
    Located settings strategy k M P caller s notes := by
  induction h with
  | none => cases hn
  | @wait d _ _ s _ _ _ ih =>
    rcases List.mem_cons.mp hn with rfl | hn
    · cases hcaller
    · have hwait : Chain (Move k M) s [.waited s (s.advance d)] (s.advance d) :=
        .step (.refl _) .wait (.rest (.refl _))
      apply (ih ht hn).prepend hwait
      rintro _ hm _ hother
      rw [List.mem_singleton.mp hm] at hother
      cases hother
  | @barred stage job _ inside finish _ place o own more s s₁ s₂ _ hquiet hbarred hrest ih =>
    obtain ⟨hpass, hinside, hpasses⟩ := ht
    obtain ⟨hkey, hM⟩ := hP _ _ _ hpass
    have hown : Chain (Move.By k M ⟨stage, job.id, place⟩) s₁ _ s₂ :=
      hbarred.chain_all (Pass.key_ofJob.trans hkey) hM
    have hmore := hrest.chain (hpasses.imp hP)
    have hsplit : own ++ o.note ⟨stage, job.id, place⟩ s₂ :: more =
        (own ++ [o.note ⟨stage, job.id, place⟩ s₂]) ++ more := by simp
    rw [hsplit, List.mem_append] at hn
    rcases hn with hn | hn
    · obtain rfl := Option.some.inj ((hown.callers n hn).symm.trans hcaller)
      have hgoes : (Pass.ofJob settings strategy _ ⟨stage, job.id, place⟩ _ job).Goes
          (Happens.Within settings strategy ⟨stage, job.id, place⟩ inside finish) s₁ o own s₂ :=
        .barred hbarred
      exact .of_goes hpass hinside hquiet.toStill hgoes hmore
    · rw [hsplit]
      exact (ih hpasses hn).prepend (hown.moves.of_still hquiet.toStill)
        (Caller.apart_of_outer (hmore.places n hn caller hcaller) hown.callers)
  | @through stage job given _ _ finish _ place _ before within after more s s₁ s₂ s₃ s₄ _ hquiet
      henters hwithin hleaves hhands hrest ihinside ihrest =>
    obtain ⟨hpass, hinside, hpasses⟩ := ht
    obtain ⟨hkey, hM⟩ := hP _ _ _ hpass
    have hfirst : Chain (Move.By k M ⟨stage, job.id, place⟩) s₁ _ s₂ :=
      henters.chain_all (Pass.key_ofJob.trans hkey) hM
    have hlast : Chain (Move.By k M ⟨stage, job.id, place⟩) s₃ _ s₄ :=
      hleaves.chain_all (Pass.key_ofJob.trans hkey)
    have hmiddle := hwithin.chain (hinside.imp hP)
    have hmore := hrest.chain (hpasses.imp hP)
    have hnext : Happens.Within settings strategy ⟨stage, job.id, place⟩ _ finish given s₂
        ((finish given).1, (finish given).2) _ s₃ := ⟨rfl, within, hwithin, rfl⟩
    have howner : Located settings strategy k M P ⟨stage, job.id, place⟩ s _ :=
      .of_goes hpass hinside hquiet.toStill (.through henters hnext hleaves hhands) hmore
    -- The notes up to the continuation, those inside it, those after it and those of the rest.
    have hsplit : before ++ (.handed ⟨stage, job.id, place⟩ given s₂ :: within) ++
        (.finished ⟨stage, job.id, place⟩ (finish given).1 s₃ :: after) ++
        ((Outcome.ended (finish given).1).note ⟨stage, job.id, place⟩ s₄ :: more) =
        (before ++ [.handed ⟨stage, job.id, place⟩ given s₂]) ++ (within ++
          ((.finished ⟨stage, job.id, place⟩ (finish given).1 s₃ :: after ++
            [(Outcome.ended (finish given).1).note ⟨stage, job.id, place⟩ s₄]) ++ more)) := by
      simp
    rw [hsplit] at hn ⊢
    rcases List.mem_append.mp hn with hn | hn
    · obtain rfl := Option.some.inj ((hfirst.callers n hn).symm.trans hcaller)
      simpa using howner
    rcases List.mem_append.mp hn with hn | hn
    · exact (ihinside hinside hn).of_inside (hmiddle.places n hn caller hcaller)
        (hfirst.of_still hquiet.toStill) hlast hmore
    rcases List.mem_append.mp hn with hn | hn
    · obtain rfl := Option.some.inj ((hlast.callers n hn).symm.trans hcaller)
      simpa using howner
    · exact (ihrest hpasses hn).of_rest (hmore.places n hn caller hcaller)
        (hfirst.of_still hquiet.toStill) hmiddle hlast

theorem Outcome.isOfContinuation_ne {o : Outcome} {other : Caller} {s : Site} {n : Note}
    (h : n.isOfContinuation = true) : n ≠ o.note other s := by
  rintro rfl
  cases (Note.isOfContinuation_outcome o other s).symm.trans h

/-- A job is handed over only after its instance has come to its continuation, the run having been a
chain up to there. -/
theorem Happens.exists_enters {t : Traffic} {place : List Bool} {s s' site : Site}
    {notes : List Note} {given : Job} (h : Happens settings strategy t place s notes s')
    (ht : t.Passes P) (hP : ∀ stage job measure, P stage job measure →
      (job.identify settings.keyspace).1 = k ∧ M measure)
    (hn : .handed caller given site ∈ notes) :
    ∃ job measure held first before rest s₁, P caller.stage job measure ∧ job.id = caller.id ∧
      notes = first ++ (before ++ .handed caller given site :: rest) ∧
      Chain (Move k M) s first s₁ ∧
      (Pass.ofJob settings strategy measure caller (s₁.workers.get? job.worker) job).Enters s₁ held
        before given site := by
  cases h.locate ht hP hn rfl with
  | @intro job measure inside finish o first own last s₁ s₂ hpass hid hinside hfirst hgoes hbefore
      hlast =>
    obtain ⟨hkey, hM⟩ := hP _ _ _ hpass
    have hown := (Caller.mem_own hbefore hlast hn rfl).resolve_right
      (Outcome.isOfContinuation_ne rfl)
    cases hgoes with
    | barred hbarred =>
      have htouches := hbarred.chain (Pass.key_ofJob.trans hkey) hM
      cases (htouches.forall_mem _ hown).isOfContinuation
    | @through held result given' job' before _ after s₃ s₄ _ henters hnext hleaves =>
      obtain ⟨-, within, hwithin, rfl⟩ := hnext
      have htouches := henters.chain (Pass.key_ofJob.trans hkey) hM
      have hplaces := hwithin.places (hinside.imp fun _ _ _ h ↦ (hP _ _ _ h).1)
      rcases Caller.mem_of_places hplaces hown rfl with hmem | heq | heq | hmem
      · cases (htouches.forall_mem _ hmem).isOfContinuation
      · cases heq
        refine ⟨job, measure, held, first, before, within ++ .finished caller (finish given).1 s₄ ::
          (after ++ (Outcome.ended result).note caller s₂ :: last), s₁, hpass, hid, ?_, hfirst,
          henters⟩
        simp
      · cases heq
      · cases hleaves.isOfContinuation _ hmem

end UniqueJobs
