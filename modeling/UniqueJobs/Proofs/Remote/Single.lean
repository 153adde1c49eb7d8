import UniqueJobs.Proofs.Remote.Transaction

/-!
A call of a remote store by itself and the same request in a batch of its own. They are read by
different readers: those of values and counts agree on every answer, and those of a set only on the
answers that the command has. A batch does not leave out a delete of nothing.
-/

namespace UniqueJobs

/-- Are two errors of one kind, whatever they say? -/
def StoreError.SameKind : StoreError → StoreError → Prop
  | .unavailable _, .unavailable _ | .script _, .script _ => True
  | .unexpectedReply _, .unexpectedReply _ | .wrongType _, .wrongType _ => True
  | _, _ => False

theorem StoreError.SameKind.refl (e : StoreError) : e.SameKind e := by cases e <;> trivial

namespace Remote

open Rehearsed (Sends willing)

/-- A call by itself and its request in a batch come to one value, or to errors of one kind. -/
inductive Agree {α : Type} (wrap : α → Reply) :
    Except StoreError α → Except StoreError (List Reply) → Prop
  | ok (v : α) : Agree wrap (.ok v) (.ok [wrap v])
  | error {e f : StoreError} (h : e.SameKind f) : Agree wrap (.error e) (.error f)

variable {α : Type} {wrap : α → Reply} {opening : List Command} {timeout : Duration}

theorem accept_singleton (a : Answer) :
    (Answer.array [a]).accept = a.accept.map fun a ↦ .array [a] := by
  rw [Answer.accept, Answer.accept, Answer.refusal?, Answer.firstRefusal?, Answer.firstRefusal?,
    Option.or_none]
  cases a.refusal? <;> rfl

/-- A request of one command is read from the one answer to its transaction. -/
theorem run_batch_singleton (ht : timeout.isZero = false) (r : Request)
    (hr : r.commands.length = 1) (a : Answer) (rest : List Turn) (sent : List Command) :
    (((byHeart opening timeout).toRecordStore.batch [r]).run
        (willing opening (.array [a]) rest sent)).1 =
      a.accept.bind fun a ↦ (r.toReply a).map fun reply ↦ [reply] := by
  have hread (a : Answer) : readTransaction [r] (.array [a]) =
      (r.toReply a).map fun reply ↦ [reply] := by
    have hd : [a].drop r.commands.length = [] := by rw [hr]; rfl
    have hl : [a].length = ([r].flatMap Request.commands).length := by
      rw [List.flatMap_singleton, hr, List.length_singleton]
    rw [readTransaction, if_pos hl, Request.readReplies, hd, Request.readReplies]
    cases r.toReply a <;> rfl
  rw [batch_eq_call opening timeout (List.cons_ne_nil r []), run_call ht, accept_singleton]
  cases a.accept with
  | error e => rfl
  | ok a => exact hread a

/-- Readers that agree on every answer agree on what a server answers. -/
theorem agree_of_toReply (ht : timeout.isZero = false) {r : Request} (hr : r.commands.length = 1)
    {command : Command} {read : Answer → Except StoreError α}
    (hread : ∀ a, r.toReply a = (read a).map wrap) (a : Answer) (rest : List Turn)
    (sent : List Command) :
    Agree wrap
      (((byHeart opening timeout).call [command] read).run (willing opening a rest sent)).1
      (((byHeart opening timeout).toRecordStore.batch [r]).run
        (willing opening (.array [a]) rest sent)).1 := by
  rw [run_call ht, run_batch_singleton ht r hr]
  cases a.accept with
  | error e => exact .error (.refl e)
  | ok a =>
    change Agree wrap (read a) ((r.toReply a).map _)
    rw [hread]
    cases read a with
    | error e => exact .error (.refl e)
    | ok v => exact .ok v

theorem toWritten_of_ne {a : Answer} (hnil : a ≠ .nil) (hok : a ≠ .status "OK") :
    ∃ why, a.toWritten = .error (.unexpectedReply why) := by
  unfold Answer.toWritten
  split
  · exact absurd rfl hok
  · exact absurd rfl hnil
  · exact ⟨_, rfl⟩

theorem isWritten_of_ne {a : Answer} (h : a ≠ .nil) : isWritten a = true := by
  cases a with
  | nil => exact absurd rfl h
  | status | bulk | integer | array | refusal => rfl

section Set

variable (opening) (key value : String) (ttl : Duration) (rest : List Turn) (sent : List Command)

theorem run_setIfAbsent (ht : timeout.isZero = false) (a : Answer) :
    (((byHeart opening timeout).toRecordStore.setIfAbsent key value ttl).run
        (willing opening a rest sent)).1 = a.accept.map isWritten := by
  change (((byHeart opening timeout).call _ _).run _).1 = _
  rw [run_call ht]
  cases a.accept <;> rfl

theorem run_batch_setIfAbsent (ht : timeout.isZero = false) (a : Answer) :
    (((byHeart opening timeout).toRecordStore.batch [.setIfAbsent key value ttl]).run
        (willing opening (.array [a]) rest sent)).1 =
      a.accept.bind fun a ↦ a.toWritten.map fun written ↦ [.set written] := by
  rw [run_batch_singleton ht _ rfl]
  congr 1
  funext a
  change (a.toWritten.map Reply.set).map _ = _
  cases a.toWritten <;> rfl

/-- An answer that a set does not have is success to a call by itself and a failure in a batch. -/
theorem sets_differ (ht : timeout.isZero = false) {a : Answer} (hr : a.refusal? = none)
    (hnil : a ≠ .nil) (hok : a ≠ .status "OK") :
    (((byHeart opening timeout).toRecordStore.setIfAbsent key value ttl).run
        (willing opening a rest sent)).1 = .ok true ∧
    ∃ why, (((byHeart opening timeout).toRecordStore.batch [.setIfAbsent key value ttl]).run
        (willing opening (.array [a]) rest sent)).1 = .error (.unexpectedReply why) := by
  have ha : a.accept = .ok a := by rw [Answer.accept, hr]
  obtain ⟨why, hw⟩ := toWritten_of_ne hnil hok
  refine ⟨?_, why, ?_⟩
  · rw [run_setIfAbsent opening key value ttl rest sent ht, ha]
    exact congrArg Except.ok (isWritten_of_ne hnil)
  · rw [run_batch_setIfAbsent opening key value ttl rest sent ht, ha]
    exact congrArg (Except.map _) hw

theorem sets_agree_iff (ht : timeout.isZero = false) (a : Answer) :
    Agree .set
      (((byHeart opening timeout).toRecordStore.setIfAbsent key value ttl).run
        (willing opening a rest sent)).1
      (((byHeart opening timeout).toRecordStore.batch [.setIfAbsent key value ttl]).run
        (willing opening (.array [a]) rest sent)).1 ↔
      a.refusal? ≠ none ∨ a = .nil ∨ a = .status "OK" := by
  constructor
  · intro h
    by_contra hn
    obtain ⟨hr, hnil, hok⟩ : a.refusal? = none ∧ a ≠ .nil ∧ a ≠ .status "OK" := by
      simpa only [not_or, not_not, ne_eq] using hn
    obtain ⟨hs, why, hb⟩ := sets_differ opening key value ttl rest sent ht hr hnil hok
    rw [hs, hb] at h
    cases h
  · intro h
    rw [run_setIfAbsent opening key value ttl rest sent ht,
      run_batch_setIfAbsent opening key value ttl rest sent ht]
    rcases h with h | h | h
    · obtain ⟨reason, hr⟩ := Option.ne_none_iff_exists'.mp h
      rw [Answer.accept, hr]
      exact .error trivial
    · rw [h]
      exact .ok false
    · rw [h]
      exact .ok true

end Set

/-- Gets agree on every answer and so do deletes of something; sets agree exactly on the answers
that the command has and on refusals. To delete nothing is answered at once by a call of its own
and sent in a batch, where it can fail. -/
theorem singles_against_batches (opening : List Command) (ht : timeout.isZero = false)
    (key value : String) (ttl : Duration) (keys : List String) (a : Answer) (rest : List Turn)
    (sent : List Command) :
    let store := (byHeart opening timeout).toRecordStore
    let alone := willing opening a rest sent
    let among := willing opening (.array [a]) rest sent
    Agree .value ((store.get key).run alone).1 ((store.batch [.get key]).run among).1 ∧
    (keys ≠ [] → Agree .deleted ((store.delete keys).run alone).1
      ((store.batch [.delete keys]).run among).1) ∧
    (Agree .set ((store.setIfAbsent key value ttl).run alone).1
        ((store.batch [.setIfAbsent key value ttl]).run among).1 ↔
      a.refusal? ≠ none ∨ a = .nil ∨ a = .status "OK") ∧
    (a.refusal? = none → a ≠ .nil → a ≠ .status "OK" →
      ((store.setIfAbsent key value ttl).run alone).1 = .ok true ∧
      ∃ why, ((store.batch [.setIfAbsent key value ttl]).run among).1 =
        .error (.unexpectedReply why)) ∧
    (∀ s, (store.delete []).run s = (.ok 0, s)) ∧
    (store.batch [.delete []]).run alone = (a.accept.bind (readTransaction [.delete []]),
      ⟨true, rest, [["EXEC"], ["DEL"], ["MULTI"]] ++ opening.reverse ++ sent⟩) ∧
    ((store.batch [.delete []]).run { alone with reachable := false }).1 =
      .error (.unavailable (.other "connection refused")) := by
  intro store alone among
  refine ⟨agree_of_toReply ht rfl (fun _ ↦ rfl) a rest sent, fun hk ↦ ?_,
    sets_agree_iff opening key value ttl rest sent ht a,
    sets_differ opening key value ttl rest sent ht, fun _ ↦ rfl, ?_, ?_⟩
  · have hd : store.delete keys = (byHeart opening timeout).call ["DEL" :: keys] Answer.toCount :=
      if_neg (by simpa using hk)
    rw [hd]
    exact agree_of_toReply ht rfl (fun _ ↦ rfl) a rest sent
  · exact run_call ht a rest sent
  · exact congrArg Prod.fst (run_call_of_unreachable ht rfl)

/-- A status that is no answer to a set, nor to a delete. -/
theorem singles_against_batches_queued :
    let store := (byHeart [] (.ofMillis 1)).toRecordStore
    let alone := willing [] (.status "QUEUED") [] []
    let among := willing [] (.array [.status "QUEUED"]) [] []
    Agree .deleted ((store.delete ["k"]).run alone).1 ((store.batch [.delete ["k"]]).run among).1 ∧
    ((store.setIfAbsent "k" "a" (.ofMillis 1)).run alone).1 = .ok true ∧
    ∃ why, ((store.batch [.setIfAbsent "k" "a" (.ofMillis 1)]).run among).1 =
      .error (.unexpectedReply why) := by
  intro store alone among
  have ht : (Duration.ofMillis 1).isZero = false := rfl
  obtain ⟨-, hdelete, -, hset, -⟩ := singles_against_batches [] ht "k" "a" (.ofMillis 1) ["k"]
    (.status "QUEUED") [] []
  exact ⟨hdelete nofun, hset rfl nofun (by simp)⟩

/-- Does a set by itself always come out as a set in a batch? -/
def SetsAgree : Prop :=
  ∀ (opening : List Command) (timeout : Duration) (key value : String) (ttl : Duration)
    (a : Answer) (rest : List Turn) (sent : List Command),
    timeout.isZero = false → a.refusal? = none →
    Agree .set
      (((byHeart opening timeout).toRecordStore.setIfAbsent key value ttl).run
        (willing opening a rest sent)).1
      (((byHeart opening timeout).toRecordStore.batch [.setIfAbsent key value ttl]).run
        (willing opening (.array [a]) rest sent)).1

/-- Does to delete nothing succeed in both ways? -/
def EmptyDeletesSucceed : Prop :=
  ∀ (opening : List Command) (timeout : Duration) (s : Rehearsed),
    timeout.isZero = false →
    (((byHeart opening timeout).toRecordStore.delete []).run s).1 = .ok 0 ∧
    (((byHeart opening timeout).toRecordStore.batch [.delete []]).run s).1 = .ok [.deleted 0]

/-- A set that is told `QUEUED`, and a server that refuses to delete nothing. -/
theorem not_setsAgree_not_emptyDeletesSucceed : ¬ SetsAgree ∧ ¬ EmptyDeletesSucceed := by
  have ht : (Duration.ofMillis 1).isZero = false := rfl
  have hqueued : (Answer.status "QUEUED").refusal? = none := rfl
  refine ⟨fun h ↦ ?_, fun h ↦ ?_⟩
  · obtain ⟨hs, why, hb⟩ := sets_differ [] "k" "a" (.ofMillis 1) [] [] ht hqueued nofun (by simp)
    have hag := h [] (.ofMillis 1) "k" "a" (.ofMillis 1) (.status "QUEUED") [] [] ht hqueued
    rw [hs, hb] at hag
    cases hag
  · obtain ⟨-, hb⟩ := h [] (.ofMillis 1) (willing [] (.refusal "EXECABORT") [] []) rfl
    cases hb

end Remote

end UniqueJobs
