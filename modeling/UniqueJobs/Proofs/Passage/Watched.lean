import UniqueJobs.Passage

/-!
Passages as they can be seen from outside. The host is any host, so that the store answers as it
likes; its batches are marked with their answers, and the runs of the continuation with their
results. `Leaves` says that an act does what it does unwatched and which marks it leaves, and `Idles`
that they are none that matter: the act neither claims the window nor runs the continuation.
-/

namespace UniqueJobs

def Host.lift {m n : Type → Type} (f : {α : Type} → m α → n α) (h : Host m) : Host n where
  store := h.store.lift f
  distance config location baseline := f (h.distance config location baseline)
  now := f h.now
  emit e := f (h.emit e)
  freshId := f h.freshId
  reschedule? := h.reschedule?.map fun reschedule job ↦ f (reschedule job)

namespace Passage

/-- What can be seen of a passage whose continuation has results in `ρ`. -/
inductive Mark (ρ : Type)
  | batch (requests : List Request) (answer : Except StoreError (List Reply))
  | ran (result : ρ)

/-- Acts over the states `σ` of a host that leave marks. -/
abbrev Watched (σ ρ : Type) := StateT (List (Mark ρ)) (StateM σ)

variable {σ ρ α β ε : Type}

def unseen (x : StateM σ α) : Watched σ ρ α := StateT.lift x

def mark (x : Mark ρ) : Watched σ ρ Unit := modify (· ++ [x])

def watchStore (store : RecordStore (StateM σ)) : RecordStore (Watched σ ρ) :=
  { store.lift unseen with
    batch := fun requests ↦ do
      let answer ← unseen (store.batch requests)
      mark (.batch requests answer)
      pure answer }

def watchHost (h : Host (StateM σ)) : Host (Watched σ ρ) :=
  { h.lift unseen with store := watchStore h.store }

def watchNext (next : Continuation (StateM σ) ε α) :
    Continuation (Watched σ (Except ε α)) ε α := fun job ↦ do
  let (result, job) ← unseen (next job)
  mark (.ran result)
  pure (result, job)

def runs : List (Mark ρ) → List ρ
  | [] => []
  | .ran r :: rest => r :: runs rest
  | .batch _ _ :: rest => runs rest

theorem runs_append (first second : List (Mark ρ)) :
    runs (first ++ second) = runs first ++ runs second := by
  induction first with
  | nil => rfl
  | cons x rest ih => cases x <;> simp [runs, ih]

end Passage

/-- What a claimant makes of the answer to its claim. -/
def Claimant.verdict (c : Claimant) :
    Except StoreError (List Reply) → Except ClaimError JobId
  | .error e => .error (.store e)
  | .ok replies =>
    match c.readClaim replies with
    | .error e => .error (.store e)
    | .ok (winner, _) => .ok winner

namespace Passage

variable {σ ρ α β ε : Type}

def claims : List Request → Bool
  | .setIfAbsent .. :: _ => true
  | _ => false

/-- The verdicts of the claims among the marks. -/
def verdicts (c : Claimant) : List (Mark ρ) → List (Except ClaimError JobId)
  | [] => []
  | .ran _ :: rest => verdicts c rest
  | .batch requests answer :: rest =>
    if claims requests then c.verdict answer :: verdicts c rest else verdicts c rest

theorem verdicts_append (c : Claimant) (first second : List (Mark ρ)) :
    verdicts c (first ++ second) = verdicts c first ++ verdicts c second := by
  induction first with
  | nil => rfl
  | cons x rest ih =>
    cases x with
    | ran r => exact ih
    | batch requests answer =>
      simp only [List.cons_append, verdicts, ih]
      split <;> rfl

theorem verdicts_latest (c : Claimant) (latest : Option (Dictionary String))
    (marks : List (Mark ρ)) : verdicts { c with latest } marks = verdicts c marks := by
  induction marks with
  | nil => rfl
  | cons x rest ih =>
    cases x with
    | ran r => exact ih
    | batch requests answer =>
      simp only [verdicts, ih]
      rfl

structure Shows (c : Claimant) (marks : List (Mark ρ)) (answers : List (Except ClaimError JobId))
    (results : List ρ) : Prop where
  verdicts : verdicts c marks = answers
  runs : runs marks = results

namespace Shows

variable {c : Claimant} {first second marks : List (Mark ρ)}
  {answers answers' : List (Except ClaimError JobId)} {results results' : List ρ}

theorem append (h : Shows c first answers results) (h' : Shows c second answers' results') :
    Shows c (first ++ second) (answers ++ answers') (results ++ results') where
  verdicts := by rw [verdicts_append, h.verdicts, h'.verdicts]
  runs := by rw [runs_append, h.runs, h'.runs]

theorem ran (c : Claimant) (result : ρ) : Shows c [.ran result] [] [result] := ⟨rfl, rfl⟩

theorem of_latest {latest : Option (Dictionary String)}
    (h : Shows { c with latest } marks answers results) : Shows c marks answers results where
  verdicts := (verdicts_latest c latest marks).symm.trans h.verdicts
  runs := h.runs

end Shows

/-- Whatever the host does, the watched act `x` does the same as `y`, and what holds of its outcome
and the marks it leaves. -/
def Leaves (x : Watched σ ρ α) (y : StateM σ α) (P : α → List (Mark ρ) → Prop) : Prop :=
  ∀ marks s, ∃ new, (x.run marks).run s = (((y.run s).1, marks ++ new), (y.run s).2) ∧
    P (y.run s).1 new

namespace Leaves

variable {x : Watched σ ρ α} {y : StateM σ α} {P Q : α → List (Mark ρ) → Prop}

theorem imp (h : Leaves x y P) (hPQ : ∀ a new, P a new → Q a new) : Leaves x y Q := by
  intro marks s
  obtain ⟨new, hx, hP⟩ := h marks s
  exact ⟨new, hx, hPQ _ new hP⟩

theorem pure {a : α} (h : P a []) : Leaves (Pure.pure a : Watched σ ρ α) (Pure.pure a) P :=
  fun marks s ↦ ⟨[], by rw [List.append_nil]; rfl, h⟩

theorem bind {f : α → Watched σ ρ β} {g : α → StateM σ β} {R : β → List (Mark ρ) → Prop}
    (h : Leaves x y P)
    (hf : ∀ a new, P a new → Leaves (f a) (g a) fun b more ↦ R b (new ++ more)) :
    Leaves (x >>= f) (y >>= g) R := by
  intro marks s
  obtain ⟨new, hx, hP⟩ := h marks s
  obtain ⟨more, hfa, hR⟩ := hf _ new hP (marks ++ new) (y.run s).2
  refine ⟨new ++ more, ?_, hR⟩
  rw [← List.append_assoc]
  change ((x.run marks).run s >>= fun p ↦ ((f p.1.1).run p.1.2).run p.2) = _
  rw [hx]
  exact hfa

theorem unseen (y : StateM σ α) : Leaves (Passage.unseen (ρ := ρ) y) y fun _ new ↦ new = [] :=
  fun marks s ↦ ⟨[], by rw [List.append_nil]; rfl, rfl⟩

theorem bind_mark {z : Mark ρ} {f : Watched σ ρ β} {g : StateM σ β}
    {R : β → List (Mark ρ) → Prop} (hf : Leaves f g fun b more ↦ R b (z :: more)) :
    Leaves (do mark z; f) g R := by
  intro marks s
  obtain ⟨more, hrun, hR⟩ := hf (marks ++ [z]) s
  refine ⟨z :: more, ?_, hR⟩
  rw [List.append_cons]
  exact hrun

theorem batch (store : RecordStore (StateM σ)) (requests : List Request) :
    Leaves ((watchStore (ρ := ρ) store).batch requests) (store.batch requests)
      fun answer new ↦ new = [.batch requests answer] := by
  change Leaves _ (store.batch requests >>= Pure.pure) _
  apply Leaves.bind (Leaves.unseen (store.batch requests))
  intro answer new hnew
  subst hnew
  exact Leaves.bind_mark (Leaves.pure rfl)

end Leaves

/-- Marks of batches only, none of which claims a window. -/
def Idle (marks : List (Mark ρ)) : Prop :=
  ∀ y ∈ marks, ∃ requests answer, y = .batch requests answer ∧ claims requests = false

namespace Idle

theorem nil : Idle ([] : List (Mark ρ)) := fun _ h ↦ (by cases h)

theorem append {first second : List (Mark ρ)} (h : Idle first) (h' : Idle second) :
    Idle (first ++ second) := by
  intro y hy
  rcases List.mem_append.mp hy with hy | hy
  · exact h y hy
  · exact h' y hy

theorem shows {marks : List (Mark ρ)} (h : Idle marks) (c : Claimant) : Shows c marks [] [] := by
  induction marks with
  | nil => exact ⟨rfl, rfl⟩
  | cons y rest ih =>
    obtain ⟨requests, answer, rfl, hclaims⟩ := h y List.mem_cons_self
    have hrest := ih fun y hy ↦ h y (List.mem_cons_of_mem _ hy)
    refine ⟨?_, hrest.runs⟩
    rw [verdicts, hclaims]
    exact hrest.verdicts

end Idle

/-- The act neither claims a window nor runs the continuation. -/
def Idles (x : Watched σ ρ α) (y : StateM σ α) : Prop := Leaves x y fun _ new ↦ Idle new

namespace Idles

theorem pure (a : α) : Idles (Pure.pure a : Watched σ ρ α) (Pure.pure a) := Leaves.pure .nil

theorem bind {x : Watched σ ρ α} {y : StateM σ α} {f : α → Watched σ ρ β} {g : α → StateM σ β}
    (h : Idles x y) (hf : ∀ a, Idles (f a) (g a)) : Idles (x >>= f) (y >>= g) := by
  apply Leaves.bind h
  intro a new hnew
  exact (hf a).imp fun _ _ hmore ↦ hnew.append hmore

theorem unseen (y : StateM σ α) : Idles (Passage.unseen (ρ := ρ) y) y := by
  apply (Leaves.unseen y).imp
  intro a new hnew
  subst hnew
  exact .nil

theorem ite {x x' : Watched σ ρ α} {y y' : StateM σ α} (p : Prop) [Decidable p]
    (h : Idles x y) (h' : Idles x' y') : Idles (if p then x else x') (if p then y else y') := by
  by_cases hp : p
  · rw [if_pos hp, if_pos hp]
    exact h
  · rw [if_neg hp, if_neg hp]
    exact h'

variable {h : Host (StateM σ)} {c : Claimant} {job : Job}

theorem batch {requests : List Request} (hclaims : claims requests = false)
    (store : RecordStore (StateM σ)) :
    Idles ((watchStore (ρ := ρ) store).batch requests) (store.batch requests) := by
  apply (Leaves.batch store requests).imp
  intro answer new hnew z hz
  subst hnew
  exact ⟨requests, answer, List.mem_singleton.mp hz, hclaims⟩

theorem emit (h : Host (StateM σ)) (e : Event) :
    Idles ((watchHost (ρ := ρ) h).emit e) (h.emit e) := unseen (h.emit e)

theorem note {event : ClaimError → Event} (r : Except ClaimError Unit) :
    Idles (Passage.note (watchHost (ρ := ρ) h) event r) (Passage.note h event r) := by
  cases r with
  | error e => exact emit h (event e)
  | ok u => exact .pure u

theorem offer (c : Claimant) (store : RecordStore (StateM σ)) (distance : Distance (StateM σ))
    (locations : List (String × String)) :
    Idles (c.offer (watchStore (ρ := ρ) store)
      (fun config location baseline ↦ Passage.unseen (distance config location baseline))
        locations) (c.offer store distance locations) := by
  induction locations with
  | nil => exact .pure _
  | cons head rest ih =>
    apply (unseen (distance _ _ _)).bind
    intro offset
    cases offset with
    | error e => exact .pure _
    | ok offset =>
      apply (unseen (store.run _ _ _)).bind
      intro answer
      cases answer with
      | error e => exact .pure _
      | ok u => exact ih

theorem offerLocations (h : Host (StateM σ)) (c : Claimant) :
    Idles (c.offerLocations (watchHost (ρ := ρ) h).store (watchHost h).distance)
      (c.offerLocations h.store h.distance) :=
  ite _ (.pure _) (ite _ (.pure _) (offer c h.store h.distance c.locations.entries))

theorem setFlag (h : Host (StateM σ)) (c : Claimant) (ttl : Duration) :
    Idles (c.setFlag (watchHost (ρ := ρ) h).store ttl) (c.setFlag h.store ttl) := by
  apply ite _ _ (.pure _)
  apply (unseen (h.store.setIfAbsent _ _ _)).bind
  intro answer
  cases answer <;> exact .pure _

theorem readFlag : Idles (Passage.readFlag (watchHost (ρ := ρ) h) c job)
    (Passage.readFlag h c job) := by
  have hflagged : Idles (c.flagged (watchHost (ρ := ρ) h).store) (c.flagged h.store) := by
    apply ite _ _ (.pure _)
    apply (unseen (h.store.get _)).bind
    intro answer
    cases answer <;> exact .pure _
  apply hflagged.bind
  intro r
  cases r with
  | error e => exact (emit h _).bind fun _ ↦ .pure _
  | ok flagged => exact .pure _

theorem letGo : Idles (Passage.letGo (watchHost (ρ := ρ) h) c job) (Passage.letGo h c job) := by
  have hrelease : Idles (c.release (watchHost (ρ := ρ) h).store (watchHost h).emit)
      (c.release h.store h.emit) := by
    apply (unseen (h.store.run _ _ _)).bind
    intro answer
    cases answer with
    | error e => exact .pure _
    | ok u => exact (emit h _).bind fun _ ↦ .pure _
  exact hrelease.bind fun r ↦ note r

theorem runAgain : Idles (Passage.runAgain (watchHost (ρ := ρ) h) job)
    (Passage.runAgain h job) := by
  rw [Passage.runAgain, Passage.runAgain]
  cases hreschedule : h.reschedule? with
  | none =>
    simp only [watchHost, Host.lift, hreschedule, Option.map_none]
    exact emit h _
  | some reschedule =>
    simp only [watchHost, Host.lift, hreschedule, Option.map_some]
    apply (unseen h.freshId).bind
    intro id
    apply (unseen (reschedule _)).bind
    intro answer
    cases answer <;> exact unseen _

theorem claims_items (k : JobKey) (configs : List String) :
    claims (configs.map fun config ↦ .item (k.latest config) 0) = false := by
  cases configs <;> rfl

end Idles

theorem leaves_attachLatest (h : Host (StateM σ)) (c : Claimant) (job : Job) :
    Leaves (attachLatest (watchHost (ρ := ρ) h) c job) (attachLatest h c job) fun r new ↦
      Idle new ∧ ∃ latest, r.1 = { c with latest } := by
  have hread : Leaves (c.readLatest (watchHost (ρ := ρ) h).store) (c.readLatest h.store)
      fun r new ↦ Idle new ∧ ∃ latest, r.2 = { c with latest } := by
    rw [Claimant.readLatest, Claimant.readLatest]
    cases hlatest : c.latest with
    | some latest => exact Leaves.pure ⟨.nil, c.latest, rfl⟩
    | none =>
      by_cases hempty : c.locations.isEmpty = true
      · simp only [hempty, ↓reduceIte]
        exact Leaves.pure ⟨.nil, some .empty, rfl⟩
      · simp only [hempty, Bool.false_eq_true, ↓reduceIte]
        apply Leaves.bind (Idles.batch (Idles.claims_items c.key c.locations.keys) h.store)
        intro answer new hnew
        have hnew' := hnew.append .nil
        cases answer with
        | error e => exact Leaves.pure ⟨hnew', c.latest, rfl⟩
        | ok replies =>
          cases hpairs : Claimant.pairValues c.locations.keys replies with
          | error e =>
            simp only [hpairs]
            exact Leaves.pure ⟨hnew', c.latest, rfl⟩
          | ok latest =>
            simp only [hpairs]
            exact Leaves.pure ⟨hnew', some latest, rfl⟩
  apply hread.bind
  intro r new hr
  obtain ⟨answer, c'⟩ := r
  obtain ⟨hnew, latest, rfl⟩ := hr
  cases answer with
  | ok latest' => exact Leaves.pure ⟨hnew.append .nil, latest, rfl⟩
  | error e =>
    apply Leaves.bind (Idles.emit h _)
    intro u more hmore
    exact Leaves.pure ⟨hnew.append (hmore.append .nil), latest, rfl⟩

end Passage

end UniqueJobs
