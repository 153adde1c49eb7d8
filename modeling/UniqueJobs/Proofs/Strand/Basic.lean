import UniqueJobs.Proofs.Journal.Basic

/-!
Calls in steps. A `Strand` is an act that asks the site for one thing after another, and between two
of its requests other acts may ask for theirs. `Meets` is the judgement on a strand by itself,
whatever it is answered.
-/

namespace UniqueJobs

/-- What a call of the store is answered if it does not fail. -/
abbrev StoreCall.Answer : StoreCall → Type
  | get _ => Option String
  | setIfAbsent .. => Bool
  | delete _ => Nat
  | batch _ => List Reply
  | run .. => Unit

/-- What an act asks of a site at once. -/
inductive Ask
  | store (call : StoreCall)
  | now
  | emit (e : Event)
  | freshId
  | again (job : Job)
  | worker? (name : String)
  | isOn (name : String)

abbrev Ask.Answer : Ask → Type
  | store call => Except StoreError call.Answer
  | now => Timestamp
  | emit _ => Unit
  | freshId => JobId
  | again _ => Except String Unit
  | worker? _ => Option Worker
  | isOn _ => Bool

structure Exchange where
  ask : Ask
  answer : ask.Answer

inductive Strand (α : Type)
  | done (a : α)
  | ask (q : Ask) (next : q.Answer → Strand α)

namespace Strand

variable {α β : Type}

protected def bind : Strand α → (α → Strand β) → Strand β
  | done a, f => f a
  | ask q next, f => ask q fun a ↦ (next a).bind f

instance : Monad Strand where
  pure := done
  bind := Strand.bind

def request (q : Ask) : Strand q.Answer := ask q done

def store : RecordStore Strand where
  get name := request (.store (.get name))
  setIfAbsent name value ttl := request (.store (.setIfAbsent name value ttl))
  delete names := request (.store (.delete names))
  batch requests := request (.store (.batch requests))
  run procedure keys args := request (.store (.run procedure keys args))

def host (measure : String → String → String → Except LsnError Int64) : Host Strand where
  store
  distance config location baseline := pure (measure config location baseline)
  now := request .now
  emit e := request (.emit e)
  freshId := request .freshId
  reschedule? := some fun job ↦ request (.again job)

def gate (settings : Settings) (measure : String → String → String → Except LsnError Int64) :
    Gate Strand where
  settings
  host := host measure
  worker? name := request (.worker? name)
  isOn name := request (.isOn name)

/-- If every answer is as `R` has it, all that the strand asks is in `P`, and `Q` holds of its result
and of its exchanges. -/
def Meets (R : Exchange → Prop) (P : Ask → Prop) :
    Strand α → (α → List Exchange → Prop) → Prop
  | done a, Q => Q a []
  | ask q next, Q => P q ∧ ∀ a, R ⟨q, a⟩ → (next a).Meets R P fun b more ↦ Q b (⟨q, a⟩ :: more)

namespace Meets

variable {R : Exchange → Prop} {P P' : Ask → Prop} {x : Strand α}
  {Q Q' : α → List Exchange → Prop}

theorem imp (h : x.Meets R P Q) (hP : ∀ q, P q → P' q) (hQ : ∀ a new, Q a new → Q' a new) :
    x.Meets R P' Q' := by
  induction x generalizing Q Q' with
  | done a => exact hQ a [] h
  | ask q next ih => exact ⟨hP q h.1, fun a ha ↦ ih a (h.2 a ha) fun b more ↦ hQ b _⟩

theorem post (h : x.Meets R P Q) (hQ : ∀ a new, Q a new → Q' a new) : x.Meets R P Q' :=
  h.imp (fun _ ↦ id) hQ

theorem pure {a : α} (h : Q a []) : (Pure.pure a : Strand α).Meets R P Q := h

theorem request {q : Ask} {Q : q.Answer → List Exchange → Prop} (hP : P q)
    (hQ : ∀ a, R ⟨q, a⟩ → Q a [⟨q, a⟩]) : (Strand.request q).Meets R P Q := ⟨hP, hQ⟩

theorem bind {f : α → Strand β} {Q' : β → List Exchange → Prop} (h : x.Meets R P Q)
    (hf : ∀ a new, Q a new → (f a).Meets R P fun b more ↦ Q' b (new ++ more)) :
    (x >>= f).Meets R P Q' := by
  induction x generalizing Q Q' with
  | done a => exact hf a [] h
  | ask q next ih => exact ⟨h.1, fun a ha ↦ ih a (h.2 a ha) fun b new hb ↦ hf b _ hb⟩

theorem asked (h : x.Meets R P Q) : x.Meets R P fun a new ↦ Q a new ∧ ∀ e ∈ new, P e.ask := by
  induction x generalizing Q with
  | done a => exact ⟨h, by simp⟩
  | ask q next ih =>
    refine ⟨h.1, fun a ha ↦ (ih a (h.2 a ha)).post ?_⟩
    rintro b more ⟨hQ, hmore⟩
    exact ⟨hQ, List.forall_mem_cons.mpr ⟨h.1, hmore⟩⟩

end Meets

end Strand

end UniqueJobs
