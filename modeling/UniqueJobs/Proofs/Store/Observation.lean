import UniqueJobs.Proofs.Dictionary
import UniqueJobs.Proofs.Store.Confined

/-!
What can be seen of a local store. A `View` is the instant, whether the store is switched on, and
the entries that are live; what has expired is no part of it. Main statement: `history_eq_of_view_eq`,
that two stores of one view give the same answers and go through the same views, whatever is done
with them and whenever expired entries are dropped.
-/

namespace UniqueJobs

namespace Entries

variable {now : Instant}

/-- The entries that are live. -/
def living (now : Instant) (es : Entries) : Entries :=
  ⟨es.entries.filter fun e ↦ e.2.isLive now, es.ascending.filter _⟩

theorem get?_living (es : Entries) (name : String) :
    (es.living now).get? name = es.live? now name := by
  refine Option.ext fun e ↦ ?_
  rw [Dictionary.get?_eq_some_iff, living, List.mem_filter, live?, Option.filter_eq_some_iff,
    Dictionary.get?_eq_some_iff]

theorem living_congr {es es' : Entries} (h : ∀ name, es.live? now name = es'.live? now name) :
    es.living now = es'.living now :=
  Dictionary.ext_get? fun name ↦ by rw [get?_living, get?_living, h name]

/-- An operation that goes by the live entries alone, wherever they are. -/
abbrev Sighted {α : Type} (now : Instant) (f : Entries → α × Entries) : Prop :=
  Confined (fun _ ↦ True) (fun _ ↦ True) now f

theorem Sighted.setIfAbsent (name value : String) (ttl : Duration) :
    Sighted now fun es ↦ let (written, es) := Entries.setIfAbsent now name value ttl es
      ((.ok written : Except StoreError Bool), es) :=
  (Confined.setIfAbsent trivial value ttl).map Except.ok

theorem Sighted.delete (names : List String) :
    Sighted now fun es ↦ let (n, es) := Entries.delete now names es
      ((.ok n : Except StoreError Nat), es) :=
  (Confined.delete fun _ _ ↦ trivial).map Except.ok

theorem Sighted.carryOutAll (l : List Request) : Sighted now (Entries.carryOutAll now l) := by
  refine Confined.carryOutAll fun r _ ↦ ?_
  cases r with
  | setIfAbsent | get | item => trivial
  | delete => exact fun _ _ ↦ trivial
  | addNames => exact ⟨trivial, fun _ _ ↦ trivial⟩

theorem Sighted.advance (keys args : List String) : Sighted now (Entries.advance now keys args) := by
  by_cases hkeys : ∃ list configs, keys = [list, configs]
  · obtain ⟨list, configs, rfl⟩ := hkeys
    by_cases hargs : ∃ location offset ttl config, args = [location, offset, ttl, config]
    · obtain ⟨location, offset, ttl, config, rfl⟩ := hargs
      exact Confined.advance trivial trivial trivial location offset ttl
    · refine (Confined.const (.error (.script (.argumentCount 4 args.length)))).congr fun es ↦ ?_
      simp only [Entries.advance]
      split
      · exact absurd ⟨_, _, _, _, rfl⟩ hargs
      · rfl
  · refine (Confined.const (.error (.script (.keyCount 2 keys.length)))).congr fun es ↦ ?_
    simp only [Entries.advance]
    split
    · exact absurd ⟨_, _, rfl⟩ hkeys
    · rfl

theorem Sighted.release (keys args : List String) : Sighted now (Entries.release now keys args) := by
  by_cases hkeys : ∃ key flag configs, keys = [key, flag, configs]
  · obtain ⟨key, flag, configs, rfl⟩ := hkeys
    exact Confined.release (fun _ _ ↦ trivial) (fun _ _ _ _ ↦ trivial) fun _ _ ↦ trivial
  · refine (Confined.const (.error (.script (.keyCount 3 keys.length)))).congr fun es ↦ ?_
    simp only [Entries.release]
    split
    · exact absurd ⟨_, _, _, rfl⟩ hkeys
    · rfl

theorem Sighted.runProcedure (p : Procedure) (keys args : List String) :
    Sighted now (Entries.runProcedure now p keys args) := by
  cases p with
  | advance => exact .advance keys args
  | release => exact .release keys args

end Entries

/-- A local store and what its clock reads. -/
structure TimedStore where
  store : LocalStore
  now : Instant

/-- What there is to see of a store: no entry is seen that has expired. -/
@[ext] structure View where
  now : Instant
  available : Bool
  live? : String → Option Entry

namespace TimedStore

def view (s : TimedStore) : View :=
  ⟨s.now, s.store.available, fun name ↦ s.store.entries.live? s.now name⟩

def records : RecordStore (StateM TimedStore) :=
  LocalStore.toRecordStore (return (← get).now) fun f ↦ modifyGet fun s ↦
    let (a, store) := f s.store
    (a, { s with store })

inductive Operation
  | get (key : String)
  | setIfAbsent (key value : String) (ttl : Duration)
  | delete (keys : List String)
  | batch (requests : List Request)
  | run (p : Procedure) (keys args : List String)
  | contains (key : String)
  | size
  | isEmpty
  | remaining (key : String)
  /-- The clock goes on. -/
  | wait (d : Duration)
  | switch (available : Bool)
  /-- What has expired under the key is dropped, by a call that met with it or for no reason. -/
  | drop (key : String)

inductive Answer
  | value (r : Except StoreError (Option String))
  | written (r : Except StoreError Bool)
  | deleted (r : Except StoreError Nat)
  | replies (r : Except StoreError (List Reply))
  | done (r : Except StoreError Unit)
  | yes (b : Bool)
  | count (n : Nat)
  | left (d : Option Duration)

def Operation.act : Operation → StateM TimedStore (Option Answer)
  | .get key => do return some (.value (← records.get key))
  | .setIfAbsent key value ttl => do return some (.written (← records.setIfAbsent key value ttl))
  | .delete keys => do return some (.deleted (← records.delete keys))
  | .batch requests => do return some (.replies (← records.batch requests))
  | .run p keys args => do return some (.done (← records.run p keys args))
  | .contains key => fun s ↦ (some (.yes (s.store.contains s.now key)), s)
  | .size => fun s ↦ (some (.count (s.store.size s.now)), s)
  | .isEmpty => fun s ↦ (some (.yes (s.store.isEmpty s.now)), s)
  | .remaining key => fun s ↦ (some (.left (s.store.ttl? s.now key)), s)
  | .wait d => fun s ↦ (none, { s with now := ⟨s.now.nanos + d.nanos⟩ })
  | .switch available => fun s ↦ (none, { s with store := s.store.setAvailable available })
  | .drop key => fun s ↦
    (none, { s with store := { s.store with entries := s.store.entries.purge s.now key } })

/-- Is the operation one that somebody asks for? -/
def Operation.isCall : Operation → Bool
  | .drop _ => false
  | _ => true

/-- What was answered and what there was to see afterwards, for each operation that was asked for. -/
def history (s : TimedStore) : List Operation → List (Option Answer × View)
  | [] => []
  | o :: rest =>
    let s' := (o.act.run s).2
    if o.isCall then ((o.act.run s).1, s'.view) :: s'.history rest else s'.history rest

def after (s : TimedStore) (ops : List Operation) : TimedStore :=
  ops.foldl (fun s o ↦ (o.act.run s).2) s

variable {s s' : TimedStore}

theorem view_eq_iff : s.view = s'.view ↔ s.now = s'.now ∧ s.store.available = s'.store.available ∧
    ∀ name, s.store.entries.live? s.now name = s'.store.entries.live? s'.now name := by
  simp only [view, View.mk.injEq, funext_iff]

/-- A call of stores of one view is answered alike, and leaves them with one view. -/
theorem call_congr {α : Type} {f : Instant → Entries → Except StoreError α × Entries}
    (hf : ∀ t, Entries.Sighted t (f t)) (h : s.view = s'.view) :
    (s.store.call (f s.now)).1 = (s'.store.call (f s'.now)).1 ∧
      view { s with store := (s.store.call (f s.now)).2 } =
        view { s' with store := (s'.store.call (f s'.now)).2 } := by
  obtain ⟨hnow, havailable, hlive⟩ := view_eq_iff.mp h
  rw [← hnow] at hlive ⊢
  cases hon : s.store.available with
  | true =>
    have hagree : Entries.Agree (fun _ ↦ True) s.now s.store.entries s'.store.entries :=
      fun name _ ↦ hlive name
    rw [LocalStore.call, LocalStore.call, if_pos hon, if_pos (havailable.symm.trans hon)]
    exact ⟨(hf s.now).answer _ _ hagree, view_eq_iff.mpr ⟨rfl, havailable,
      fun name ↦ (hf s.now).agree _ _ hagree name trivial⟩⟩
  | false =>
    have hoff : ¬ s.store.available = true := by simp [hon]
    rw [LocalStore.call, LocalStore.call, if_neg hoff, if_neg (havailable ▸ hoff)]
    exact ⟨rfl, view_eq_iff.mpr ⟨rfl, havailable, hlive⟩⟩

theorem live?_congr (h : s.view = s'.view) (key : String) :
    s.store.live? s.now key = s'.store.live? s'.now key := by
  obtain ⟨-, havailable, hlive⟩ := view_eq_iff.mp h
  rw [LocalStore.live?, LocalStore.live?, havailable, hlive]

theorem size_congr (h : s.view = s'.view) : s.store.size s.now = s'.store.size s'.now := by
  obtain ⟨hnow, havailable, hlive⟩ := view_eq_iff.mp h
  rw [← hnow] at hlive ⊢
  have hliving := congrArg (·.entries.length) (Entries.living_congr hlive)
  simp only [Entries.living] at hliving
  rw [LocalStore.size, LocalStore.size, havailable, List.countP_eq_length_filter,
    List.countP_eq_length_filter, hliving]

/-- One operation is answered alike by stores of one view, and leaves them with one view. -/
theorem act_congr (o : Operation) (h : s.view = s'.view) :
    (o.act.run s).1 = (o.act.run s').1 ∧ (o.act.run s).2.view = (o.act.run s').2.view := by
  obtain ⟨hnow, havailable, hlive⟩ := view_eq_iff.mp h
  cases o with
  | get key =>
    have hf : ∀ t, Entries.Sighted t (Entries.getText t key) := fun t ↦ .getText trivial
    obtain ⟨hanswer, hview⟩ := call_congr hf h
    exact ⟨congrArg (fun r ↦ some (Answer.value r)) hanswer, hview⟩
  | setIfAbsent key value ttl =>
    obtain ⟨hanswer, hview⟩ := call_congr (fun t ↦ Entries.Sighted.setIfAbsent key value ttl) h
    exact ⟨congrArg (fun r ↦ some (Answer.written r)) hanswer, hview⟩
  | delete keys =>
    obtain ⟨hanswer, hview⟩ := call_congr (fun t ↦ Entries.Sighted.delete keys) h
    exact ⟨congrArg (fun r ↦ some (Answer.deleted r)) hanswer, hview⟩
  | batch requests =>
    obtain ⟨hanswer, hview⟩ := call_congr (fun t ↦ Entries.Sighted.carryOutAll requests) h
    exact ⟨congrArg (fun r ↦ some (Answer.replies r)) hanswer, hview⟩
  | run p keys args =>
    obtain ⟨hanswer, hview⟩ := call_congr (fun t ↦ Entries.Sighted.runProcedure p keys args) h
    exact ⟨congrArg (fun r ↦ some (Answer.done r)) hanswer, hview⟩
  | contains key =>
    exact ⟨congrArg (fun e : Option Entry ↦ some (Answer.yes e.isSome)) (live?_congr h key), h⟩
  | size => exact ⟨congrArg (fun n ↦ some (Answer.count n)) (size_congr h), h⟩
  | isEmpty => exact ⟨congrArg (fun n ↦ some (Answer.yes (decide (n = 0)))) (size_congr h), h⟩
  | remaining key =>
    have hleft : s.store.ttl? s.now key = s'.store.ttl? s'.now key := by
      rw [LocalStore.ttl?, LocalStore.ttl?, live?_congr h, hnow]
    exact ⟨congrArg (fun d ↦ some (Answer.left d)) hleft, h⟩
  | wait d =>
    have hagree : Entries.Agree (fun _ ↦ True) s.now s.store.entries s'.store.entries :=
      fun name _ ↦ by rw [hlive, hnow]
    have hnext : (⟨s.now.nanos + d.nanos⟩ : Instant) = ⟨s'.now.nanos + d.nanos⟩ := by rw [hnow]
    have hlater := hagree.wait (t := ⟨s.now.nanos + d.nanos⟩) (Nat.le_add_right _ _)
    refine ⟨rfl, view_eq_iff.mpr ⟨hnext, havailable, fun name ↦ ?_⟩⟩
    exact (hlater name trivial).trans (by rw [hnext]; rfl)
  | switch available => exact ⟨rfl, view_eq_iff.mpr ⟨hnow, rfl, hlive⟩⟩
  | drop key =>
    refine ⟨rfl, view_eq_iff.mpr ⟨hnow, havailable, fun name ↦ ?_⟩⟩
    exact (Entries.live?_purge _ _ _).trans ((hlive name).trans (Entries.live?_purge _ _ _).symm)

/-- To drop what has expired is to do nothing that could be seen. -/
theorem view_of_isCall_eq_false {o : Operation} (ho : o.isCall = false) (s : TimedStore) :
    (o.act.run s).2.view = s.view := by
  cases o with
  | drop key => exact view_eq_iff.mpr ⟨rfl, rfl, fun name ↦ Entries.live?_purge key name _⟩
  | _ => cases ho

/-- The drops between the calls may be left out. -/
theorem history_filter (ops : List Operation) (h : s.view = s'.view) :
    s.history ops = s'.history (ops.filter (·.isCall)) ∧
      (s.after ops).view = (s'.after (ops.filter (·.isCall))).view := by
  induction ops generalizing s s' with
  | nil => exact ⟨rfl, h⟩
  | cons o rest ih =>
    cases ho : o.isCall with
    | true =>
      obtain ⟨hanswer, hview⟩ := act_congr o h
      obtain ⟨hhistory, hend⟩ := ih hview
      rw [List.filter_cons_of_pos ho, history, history]
      simp only [ho, if_true, hanswer, hview, hhistory]
      exact ⟨trivial, hend⟩
    | false =>
      obtain ⟨hhistory, hend⟩ := ih ((view_of_isCall_eq_false ho s).trans h)
      rw [List.filter_cons_of_neg (by simp [ho]), history]
      simp only [ho, Bool.false_eq_true, if_false, hhistory]
      exact ⟨trivial, hend⟩

/-- Expired entries are never seen. Two stores with the same live entries give the same answers to
the same calls and agree on what is live after each of them, though they differ in what has expired
and in which of them drops it when. -/
theorem history_eq_of_view_eq {ops ops' : List Operation} (h : s.view = s'.view)
    (hops : ops.filter (·.isCall) = ops'.filter (·.isCall)) :
    s.history ops = s'.history ops' ∧ (s.after ops).view = (s'.after ops').view := by
  obtain ⟨hhistory, hend⟩ := history_filter ops h
  obtain ⟨hhistory', hend'⟩ := history_filter ops' (rfl : s'.view = s'.view)
  rw [hhistory, hend, hops]
  exact ⟨hhistory'.symm, hend'.symm⟩

/-- A store with a live text, and with an entry that has been there before. -/
def leftover (e : Entry) : TimedStore :=
  ⟨⟨(Dictionary.empty.insert "gone" e).insert "held" ⟨.text "job", none⟩, true⟩, ⟨10⟩⟩

theorem view_leftover {e e' : Entry} (he : e.isLive ⟨10⟩ = false) (he' : e'.isLive ⟨10⟩ = false) :
    (leftover e).view = (leftover e').view := by
  refine view_eq_iff.mpr ⟨rfl, rfl, fun name ↦ ?_⟩
  simp only [leftover, Entries.live?, Dictionary.get?_insert, Dictionary.get?_empty]
  by_cases hheld : "held" = name
  · rw [if_pos hheld, if_pos hheld]
  · rw [if_neg hheld, if_neg hheld]
    by_cases hgone : "gone" = name <;> simp [hgone, Option.filter, he, he']

/-- Whether a list or a set has expired under the name, a set can be made there. -/
theorem history_eq_of_view_eq_leftover :
    let s := leftover ⟨.list ["0/1", "1"], some ⟨10⟩⟩
    let s' := leftover ⟨.names .empty, some ⟨3⟩⟩
    let request : Request := .addNames "gone" ["main"] minTtl
    let ops : List Operation := [.drop "gone", .batch [request], .wait minTtl, .size]
    let ops' : List Operation := [.batch [request], .wait minTtl, .drop "held", .size, .drop "gone"]
    s.view = s'.view ∧ ops.filter (·.isCall) = ops'.filter (·.isCall) ∧ s.store ≠ s'.store ∧
      s.history ops = s'.history ops' ∧ (s.after ops).view = (s'.after ops').view := by
  intro s s' request ops ops'
  have hview : s.view = s'.view := view_leftover (by decide) (by decide)
  have hops : ops.filter (·.isCall) = ops'.filter (·.isCall) := rfl
  exact ⟨hview, hops, by decide +kernel, history_eq_of_view_eq hview hops⟩

end TimedStore

end UniqueJobs
