import UniqueJobs.Proofs.Strand.Act

/-!
Strands that are woven at one site: at each turn one of them asks for the next thing, or the clocks
go on. `Woven` is the invariant of a weave on one key, with what each strand has exchanged so far;
main statements: `Woven.play`, that it is kept, and `Woven.exists_play`, that no turn fails before
the calendar ends.
-/

namespace UniqueJobs

def Site.answer : (q : Ask) → Site.Act q.Answer
  | .store (.get name) => recordStore.get name
  | .store (.setIfAbsent name value ttl) => recordStore.setIfAbsent name value ttl
  | .store (.delete names) => recordStore.delete names
  | .store (.batch requests) => recordStore.batch requests
  | .store (.run procedure keys args) => recordStore.run procedure keys args
  | .now => now
  | .emit e => emit e
  | .freshId => freshId
  | .again job => do
    keep job
    pure (.ok ())
  | .worker? name => worker? name
  | .isOn name => isOn name

inductive Beat
  | asked (strand : Nat) (said : Exchange) (before after : Site)
  | waited (before after : Site)

inductive Report
  | scheduled (result : Except (Failure String) (Scheduled Unit))
  | performed (result : Except (Failure String) (Performed Unit))

structure Weave where
  site : Site
  strands : Nat → Strand Report
  beats : List Beat

namespace Weave

inductive Turn
  | strand (i : Nat)
  | wait (d : Duration)

def take (w : Weave) : Turn → Option Weave
  | .wait d =>
    some { w with
      site := w.site.advance d
      beats := w.beats ++ [.waited w.site (w.site.advance d)] }
  | .strand i =>
    match w.strands i with
    | .done _ => some w
    | .ask q next => do
      let (a, s) ← (Site.answer q).run w.site
      some ⟨s, fun j ↦ if j = i then next a else w.strands j,
        w.beats ++ [.asked i ⟨q, a⟩ w.site s]⟩

def play (w : Weave) : List Turn → Option Weave
  | [] => some w
  | turn :: turns => do (← w.take turn).play turns

def dropped? (w : Weave) (i : Nat) : Option JobId :=
  match w.strands i with
  | .done (.scheduled (.ok (.dropped winner))) => some winner
  | _ => none

def executed (w : Weave) (i : Nat) : Bool :=
  match w.strands i with
  | .done (.performed (.ok (.executed ()))) => true
  | _ => false

def duration : List Turn → Nat
  | [] => 0
  | .strand _ :: turns => duration turns
  | .wait d :: turns => d.nanos + duration turns

end Weave

/-- A job at the gate, with how its positions are measured and what its continuation makes of it. -/
structure Visit where
  job : Job
  measure : String → String → String → Except LsnError Int64
  finish : Job → Except String Unit × Job

namespace Visit

def schedule (settings : Settings) (v : Visit) : Strand Report := do
  let (result, _) ← (Strand.gate settings v.measure).schedule v.job fun job ↦ pure (v.finish job)
  pure (.scheduled result)

def perform (settings : Settings) (v : Visit) : Strand Report := do
  let (result, _) ← (Strand.gate settings v.measure).perform v.job fun job ↦ pure (v.finish job)
  pure (.performed result)

end Visit

/-- The first strand is the performance of one instance; the others schedule one each. -/
def Weave.opening (settings : Settings) (s : Site) (performed : Visit) (scheduled : Nat → Visit) :
    Weave where
  site := s
  strands
    | 0 => performed.perform settings
    | i + 1 => (scheduled i).schedule settings
  beats := []

namespace Site

variable {s s' s₀ : Site} {k : JobKey} {c : Claimant} {contact : Contact} {q : Ask}
  {a : q.Answer} {C : Contact → Prop} {d : Nat}

/-- A contact comes to its effect, and the answer is a failure where it fails. -/
theorem Calm.answer_contact (hs : s.Calm) (c : Claimant) (contact : Contact) :
    ∃ a, (answer (.store (contact.call c))).run s = some (a, s.met c contact) ∧
      Journal.failureOf a = contact.failure? c s.clock s.store.entries := by
  cases contact with
  | claim window =>
    exact ⟨_, (run_recordStore_batch (m := Option) _ hs.honest).trans
      (congrArg some (hs.call .batch _)), rfl⟩
  | readLatest =>
    exact ⟨_, (run_recordStore_batch (m := Option) _ hs.honest).trans
      (congrArg some (hs.call .batch _)), rfl⟩
  | advance config location offset =>
    exact ⟨_, (run_recordStore_run (m := Option) _ _ _ s).trans
      (congrArg some (hs.call .run _)), rfl⟩
  | release =>
    exact ⟨_, (run_recordStore_run (m := Option) _ _ _ s).trans
      (congrArg some (hs.call .run _)), rfl⟩
  | setFlag ttl =>
    exact ⟨_, (run_recordStore_setIfAbsent (m := Option) _ _ _ s).trans
      (congrArg some (hs.call .setIfAbsent _)), rfl⟩
  | readFlag =>
    exact ⟨_, (run_recordStore_get (m := Option) _ s).trans
      (congrArg some (hs.call .get _)), rfl⟩

theorem Calm.exists_answer (hs : s.Calm) (hq : q.Touches k C) (hover : ¬ Overdue s.wall) :
    ∃ r, (answer q).run s = some r := by
  cases q with
  | store call =>
    obtain ⟨c, contact, -, -, rfl⟩ := hq
    obtain ⟨a, ha, -⟩ := hs.answer_contact c contact
    exact ⟨_, ha⟩
  | now =>
    have hrun : (answer .now).run s = s.date?.map fun t ↦ (t, s) := rfl
    obtain ⟨t, ht⟩ : ∃ t, s.date? = some t := Option.ne_none_iff_exists'.mp hover
    rw [hrun, ht]
    exact ⟨_, rfl⟩
  | emit | freshId | again | worker? | isOn => exact ⟨_, rfl⟩

/-- What is not asked of the store changes nothing that a call could depend on. -/
theorem still_of_answer (hq : ∀ call, q ≠ .store call) (h : (answer q).run s = some (a, s')) :
    s.Still s' := by
  cases q with
  | store call => exact absurd rfl (hq call)
  | now =>
    have hrun : (answer .now).run s = s.date?.map fun t ↦ (t, s) := rfl
    rw [hrun] at h
    obtain ⟨_, -, heq⟩ := Option.map_eq_some_iff.mp h
    obtain ⟨-, rfl⟩ := Prod.mk.inj heq
    exact .refl s
  | emit | freshId | again | worker? | isOn =>
    obtain ⟨-, rfl⟩ := Prod.mk.inj (Option.some.inj h)
    exact ⟨rfl, rfl, rfl, rfl, rfl, rfl⟩

theorem tells_of_answer (h : (answer q).run s = some (a, s')) : s.Tells ⟨q, a⟩ := by
  cases q with
  | worker? name | isOn name => exact (Prod.mk.inj (Option.some.inj h)).1.symm
  | store | now | emit | freshId | again => trivial

theorem Later.tells (h : s.Later d s') {e : Exchange} (he : s'.Tells e) : s.Tells e := by
  obtain ⟨q, a⟩ := e
  cases q with
  | worker? name => exact he.trans (congrArg (fun workers : Dictionary Worker ↦ workers.get? name) h.workers)
  | isOn name => exact he.trans (congrArg (fun off : NameSet ↦ !off.contains name) h.off)
  | store | now | emit | freshId | again => trivial

end Site

namespace Beat

/-- How a beat stands in a journal. -/
def notes (caller : Caller) : Beat → List Note
  | asked _ ⟨.store call, answer⟩ before after =>
    [.called caller call (Journal.failureOf answer) before after]
  | asked .. => []
  | waited before after => [.waited before after]

/-- What it is in the exchanges of a strand. -/
def said? (i : Nat) : Beat → Option Exchange
  | asked j said _ _ => if j = i then some said else none
  | waited .. => none

theorem eq_of_said? {i j : Nat} {said e : Exchange} {before after : Site}
    (h : (asked i said before after).said? j = some e) : i = j ∧ said = e := by
  rw [said?] at h
  split at h
  · exact ⟨‹_›, Option.some.inj h⟩
  · cases h

def Told : Beat → Prop
  | asked _ said before after => (Site.answer said.ask).run before = some (said.answer, after)
  | waited .. => True

theorem chain_notes {k : JobKey} {s s' : Site} {q : Ask} {a : q.Answer} {C : Contact → Prop}
    (hs : s.Calm) (hq : q.Touches k C) (h : (Site.answer q).run s = some (a, s')) (caller : Caller)
    (i : Nat) :
    s.Like s' ∧ Chain (Move k fun _ ↦ True) s ((asked i ⟨q, a⟩ s s').notes caller) s' := by
  by_cases hstore : ∃ call, q = .store call
  · obtain ⟨call, rfl⟩ := hstore
    obtain ⟨c, contact, hkey, -, rfl⟩ := hq
    obtain ⟨a', ha, hfailure⟩ := hs.answer_contact c contact
    obtain ⟨rfl, rfl⟩ := Prod.mk.inj (Option.some.inj (ha.symm.trans h))
    have hnote : (asked i ⟨.store (contact.call c), a'⟩ s (s.met c contact)).notes caller =
        [contact.note caller c s] := by
      rw [notes, hfailure]
      rfl
    refine ⟨Site.like_met s c contact, ?_⟩
    rw [hnote]
    refine .step (.refl s) ?_ (.rest (.refl _))
    by_cases hrelease : contact = .release
    · rw [hrelease]
      exact .release hkey
    · exact .touch ⟨hkey, hrelease, fun _ _ offset _ ↦ ⟨fun _ _ _ ↦ .ok offset, trivial, rfl⟩⟩
  · have hnotes : (asked i ⟨q, a⟩ s s').notes caller = [] := by
      cases q with
      | store call => exact absurd ⟨call, rfl⟩ hstore
      | now | emit | freshId | again | worker? | isOn => rfl
    have hstill := Site.still_of_answer (fun call heq ↦ hstore ⟨call, heq⟩) h
    refine ⟨hstill.like, ?_⟩
    rw [hnotes]
    exact .rest hstill

end Beat

/-- The invariant of a weave on one key that began at a site: the journal of its beats, and the
strands, each with what it may ask of the store and what will hold of its report and its exchanges. -/
structure Woven (k : JobKey) (C : Nat → Contact → Prop) (Q : Nat → Report → List Exchange → Prop)
    (s : Site) (w : Weave) : Prop where
  chain : ∀ caller, Chain (Move k fun _ ↦ True) s (w.beats.flatMap (Beat.notes caller)) w.site
  told : ∀ b ∈ w.beats, b.Told
  asked : ∀ b ∈ w.beats, ∀ i e, b.said? i = some e → e.ask.Touches k (C i)
  strands : ∀ i, (w.strands i).Meets s.Tells (Ask.Touches k (C i)) fun r more ↦
    Q i r (w.beats.filterMap (Beat.said? i) ++ more)

namespace Woven

variable {k : JobKey} {C : Nat → Contact → Prop} {Q : Nat → Report → List Exchange → Prop}
  {s : Site} {w w' : Weave} {turn : Weave.Turn} {turns : List Weave.Turn}

theorem calm (h : Woven k C Q s w) (hs : s.Calm) : w.site.Calm :=
  (h.chain ⟨.schedule, ⟨""⟩, []⟩).calm hs

theorem exists_later (h : Woven k C Q s w) : ∃ d, s.Later d w.site :=
  (h.chain ⟨.schedule, ⟨""⟩, []⟩).exists_later

theorem take (h : Woven k C Q s w) (hs : s.Calm) (htake : w.take turn = some w') :
    Woven k C Q s w' := by
  cases turn with
  | wait d =>
    obtain rfl := Option.some.inj htake
    refine ⟨fun caller ↦ ?_, ?_, ?_, fun i ↦ ?_⟩
    · rw [List.flatMap_append]
      exact (h.chain caller).append (.step (.refl _) .wait (.rest (.refl _)))
    · exact List.forall_mem_append.mpr ⟨h.told, List.forall_mem_singleton.mpr trivial⟩
    · exact List.forall_mem_append.mpr ⟨h.asked, List.forall_mem_singleton.mpr (by rintro _ _ ⟨⟩)⟩
    · have hsaid : (w.beats ++ [Beat.waited w.site (w.site.advance d)]).filterMap (Beat.said? i) =
          w.beats.filterMap (Beat.said? i) := by
        rw [List.filterMap_append]
        exact List.append_nil _
      rw [hsaid]
      exact h.strands i
  | strand i =>
    have hstrand := h.strands i
    cases hi : w.strands i with
    | done r =>
      rw [Weave.take, hi] at htake
      obtain rfl := Option.some.inj htake
      exact h
    | ask q next =>
      rw [hi] at hstrand
      rw [Weave.take, hi] at htake
      obtain ⟨⟨a, s'⟩, hanswer, hw'⟩ := Option.bind_eq_some_iff.mp htake
      obtain rfl := Option.some.inj hw'
      obtain ⟨d, hlater⟩ := h.exists_later
      have hnext := hstrand.2 a (hlater.tells (Site.tells_of_answer hanswer))
      refine ⟨fun caller ↦ ?_, ?_, ?_, fun j ↦ ?_⟩
      · rw [List.flatMap_append, List.flatMap_singleton]
        exact (h.chain caller).append (Beat.chain_notes (h.calm hs) hstrand.1 hanswer caller i).2
      · exact List.forall_mem_append.mpr ⟨h.told, List.forall_mem_singleton.mpr hanswer⟩
      · refine List.forall_mem_append.mpr ⟨h.asked, List.forall_mem_singleton.mpr ?_⟩
        intro j e he
        obtain ⟨rfl, rfl⟩ := Beat.eq_of_said? he
        exact hstrand.1
      · rw [List.filterMap_append]
        by_cases hj : j = i
        · subst hj
          simpa [Beat.said?] using hnext
        · simpa [Beat.said?, hj, Ne.symm hj] using h.strands j

theorem play (h : Woven k C Q s w) (hs : s.Calm) (hplay : w.play turns = some w') :
    Woven k C Q s w' := by
  induction turns generalizing w with
  | nil =>
    obtain rfl := Option.some.inj hplay
    exact h
  | cons turn turns ih =>
    obtain ⟨w₁, htake, hrest⟩ := Option.bind_eq_some_iff.mp hplay
    exact ih (h.take hs htake) hrest

theorem exists_take (h : Woven k C Q s w) (hs : s.Calm)
    (hover : ¬ Overdue (w.site.wall + Weave.duration (turn :: turns))) :
    ∃ w', w.take turn = some w' ∧
      w'.site.wall + Weave.duration turns ≤ w.site.wall + Weave.duration (turn :: turns) := by
  cases turn with
  | wait d =>
    refine ⟨_, rfl, Nat.le_of_eq ?_⟩
    simp only [Weave.duration, Site.advance]
    omega
  | strand i =>
    have hstrand := h.strands i
    rw [Weave.duration] at hover ⊢
    cases hi : w.strands i with
    | done r => exact ⟨w, by rw [Weave.take, hi], Nat.le_refl _⟩
    | ask q next =>
      rw [hi] at hstrand
      have hnow : ¬ Overdue w.site.wall := fun h ↦ hover (h.mono (Nat.le_add_right _ _))
      obtain ⟨⟨a, s'⟩, hanswer⟩ := (h.calm hs).exists_answer hstrand.1 hnow
      have hlike := (Beat.chain_notes (h.calm hs) hstrand.1 hanswer ⟨.schedule, ⟨""⟩, []⟩ i).1
      refine ⟨_, by rw [Weave.take, hi]; exact Option.bind_eq_some_iff.mpr ⟨_, hanswer, rfl⟩, ?_⟩
      exact Nat.le_of_eq (congrArg (· + _) hlike.wall)

theorem exists_play (h : Woven k C Q s w) (hs : s.Calm)
    (hover : ¬ Overdue (w.site.wall + Weave.duration turns)) : ∃ w', w.play turns = some w' := by
  induction turns generalizing w with
  | nil => exact ⟨w, rfl⟩
  | cons turn turns ih =>
    obtain ⟨w₁, htake, hle⟩ := h.exists_take hs hover
    obtain ⟨w', hplay⟩ := ih (h.take hs htake) fun hlate ↦ hover (hlate.mono hle)
    exact ⟨w', Option.bind_eq_some_iff.mpr ⟨w₁, htake, hplay⟩⟩

end Woven

end UniqueJobs
