import UniqueJobs.Store.Rehearsed
import UniqueJobs.Store.Remote

/-!
One exchange of a remote store with a server that answers by heart: what is sent, whatever the
server does, and what comes of it when the server grants the opening and gives an answer.
-/

namespace UniqueJobs

/-- The store kept by a server that answers by heart. -/
def Remote.byHeart (opening : List Command) (timeout : Duration) : Remote (StateM Rehearsed) :=
  ⟨Rehearsed.link, opening, timeout⟩

namespace Rehearsed

variable {α β : Type} {opening commands : List Command} {timeout : Duration}

/-- What an act returns and what it sends meanwhile, whatever the server does. -/
def Sends (act : StateM Rehearsed α) (P : α → List Command → Prop) : Prop :=
  ∀ s, ∃ sent, P (act.run s).1 sent ∧ (act.run s).2.sent = sent.reverse ++ s.sent

namespace Sends

theorem pure {P : α → List Command → Prop} {a : α} (h : P a []) : Sends (Pure.pure a) P :=
  fun _ ↦ ⟨[], h, rfl⟩

theorem imp {act : StateM Rehearsed α} {P Q : α → List Command → Prop} (h : Sends act P)
    (hi : ∀ a sent, P a sent → Q a sent) : Sends act Q := by
  intro s
  obtain ⟨sent, hp, hs⟩ := h s
  exact ⟨sent, hi _ _ hp, hs⟩

/-- What the second act sends stands after what the first one sent. -/
theorem bind {act : StateM Rehearsed α} {next : α → StateM Rehearsed β}
    {P : α → List Command → Prop} {Q : β → List Command → Prop} (h : Sends act P)
    (hn : ∀ a sent, P a sent → Sends (next a) fun b more ↦ Q b (sent ++ more)) :
    Sends (act >>= next) Q := by
  intro s
  obtain ⟨sent, hp, hs⟩ := h s
  obtain ⟨more, hq, hm⟩ := hn _ sent hp (act.run s).2
  refine ⟨sent ++ more, hq, ?_⟩
  calc ((act >>= next).run s).2.sent = more.reverse ++ (act.run s).2.sent := hm
    _ = (sent ++ more).reverse ++ s.sent := by
      rw [hs, List.reverse_append, List.append_assoc]

end Sends

/-- Does an act send none but such commands, whatever the server does? -/
def SendsOnly (act : StateM Rehearsed α) (Q : Command → Prop) : Prop :=
  Sends act fun _ sent ↦ ∀ command ∈ sent, Q command

namespace SendsOnly

variable {Q : Command → Prop}

theorem pure (a : α) : SendsOnly (Pure.pure a) Q := Sends.pure nofun

theorem bind {act : StateM Rehearsed α} {next : α → StateM Rehearsed β} (h : SendsOnly act Q)
    (hn : ∀ a, SendsOnly (next a) Q) : SendsOnly (act >>= next) Q :=
  Sends.bind h fun a _ hsent ↦ (hn a).imp fun _ _ hmore ↦
    List.forall_mem_append.mpr ⟨hsent, hmore⟩

end SendsOnly

theorem sends_connect : Sends link.connect fun _ sent ↦ sent = [] := by
  intro s
  refine ⟨[], rfl, ?_⟩
  change (connect s).2.sent = s.sent
  unfold connect
  split <;> rfl

theorem sends_send : Sends (link.send commands) fun _ sent ↦ sent = commands := by
  intro s
  refine ⟨commands, rfl, ?_⟩
  change (send commands s).2.sent = _
  unfold send
  split <;> rfl

/-- A server that grants an opening and then gives an answer. -/
def willing (opening : List Command) (a : Answer) (rest : List Turn) (sent : List Command) :
    Rehearsed :=
  ⟨true, opening.map (fun _ ↦ .answer (.status "OK")) ++ .answer a :: rest, sent⟩

end Rehearsed

namespace Remote

open Rehearsed (Sends SendsOnly willing)

variable {α : Type} {opening commands : List Command} {timeout : Duration}
  {read : Answer → Except StoreError α}

theorem sends_ask :
    Sends ((byHeart opening timeout).ask commands) fun _ sent ↦ sent = commands := by
  refine Rehearsed.sends_send.bind fun a sent hs ↦ ?_
  cases a <;> exact .pure ((List.append_nil _).trans hs)

/-- The opening is broken off at the first command that is not done. -/
theorem sends_begin (todo : List Command) :
    Sends ((byHeart opening timeout).begin todo) fun done sent ↦
      sent <+: todo ∧ (done = .ok () → sent = todo) := by
  induction todo with
  | nil => exact .pure ⟨List.nil_prefix, fun _ ↦ rfl⟩
  | cons command rest ih =>
    refine sends_ask.bind fun a sent hs ↦ ?_
    subst hs
    have hb (e : StoreError) :
        Sends (pure (Except.error e)) fun (done : Except StoreError Unit) more ↦
        [command] ++ more <+: command :: rest ∧
          (done = Except.ok () → [command] ++ more = command :: rest) :=
      .pure ⟨by simp, nofun⟩
    split
    · exact hb _
    · refine ih.imp fun done more hm ↦ ⟨?_, ?_⟩
      · exact (List.prefix_cons_inj command).mpr hm.1
      · exact fun hd ↦ congrArg (command :: ·) (hm.2 hd)
    · exact hb _

theorem sends_connect :
    Sends (byHeart opening timeout).connect fun done sent ↦
      sent <+: opening ∧ (done = .ok () → sent = opening) := by
  unfold connect
  split
  · exact .pure ⟨List.nil_prefix, nofun⟩
  · refine Rehearsed.sends_connect.bind fun a sent hs ↦ ?_
    subst hs
    cases a with
    | error why => exact .pure ⟨List.nil_prefix, nofun⟩
    | ok _ => exact sends_begin opening

/-- A call sends its commands once, all together, or breaks off before. -/
theorem sends_call :
    Sends ((byHeart opening timeout).call commands read) fun _ sent ↦
      sent <+: opening ∨ sent = opening ++ commands := by
  refine sends_connect.bind fun a sent hs ↦ ?_
  cases a with
  | error e => exact .pure (.inl (by simpa using hs.1))
  | ok _ =>
    refine sends_ask.bind fun b more hm ↦ ?_
    have hp : sent ++ (more ++ []) = opening ++ commands := by
      rw [hs.2 rfl, hm, List.append_nil]
    cases b <;> exact .pure (.inr hp)

theorem sendsOnly_ask {Q : Command → Prop} (h : ∀ command ∈ commands, Q command) :
    SendsOnly ((byHeart opening timeout).ask commands) Q := by
  refine sends_ask.imp fun _ sent hs ↦ ?_
  subst hs
  exact h

theorem sendsOnly_connect {Q : Command → Prop} (h : ∀ command ∈ opening, Q command) :
    SendsOnly (byHeart opening timeout).connect Q :=
  sends_connect.imp fun _ _ hs command hc ↦ h command (hs.1.subset hc)

theorem sendsOnly_call {Q : Command → Prop} (ho : ∀ command ∈ opening, Q command)
    (h : ∀ command ∈ commands, Q command) :
    SendsOnly ((byHeart opening timeout).call commands read) Q := by
  refine (sendsOnly_connect ho).bind fun done ↦ ?_
  cases done with
  | error e => exact .pure _
  | ok _ =>
    refine (sendsOnly_ask h).bind fun a ↦ ?_
    cases a <;> exact .pure _

/-- A procedure is run by its digest, and its text is sent where the digest is not known. -/
theorem sendsOnly_run {Q : Command → Prop} {p : Procedure} {keys args : List String}
    (ho : ∀ command ∈ opening, Q command) (hload : Q ["SCRIPT", "LOAD", p.source])
    (h : Q (invocation p keys args)) :
    SendsOnly ((byHeart opening timeout).toRecordStore.run p keys args) Q := by
  have hask (command : Command) (hc : Q command) :
      SendsOnly ((byHeart opening timeout).ask [command]) Q :=
    sendsOnly_ask fun other hother ↦ List.mem_singleton.mp hother ▸ hc
  have horder (command : Command) (hc : Q command) :
      SendsOnly ((byHeart opening timeout).order command) Q := by
    refine (hask command hc).bind fun a ↦ ?_
    cases a <;> exact .pure _
  refine (sendsOnly_connect ho).bind fun done ↦ ?_
  cases done with
  | error e => exact .pure _
  | ok _ =>
    refine (hask _ h).bind fun a ↦ ?_
    split
    · exact .pure _
    · split
      · refine (horder _ hload).bind fun loaded ↦ ?_
        cases loaded with
        | error e => exact .pure _
        | ok _ => exact horder _ h
      · exact .pure _
    · exact .pure _

theorem run_ask (a : Answer) (rest : List Turn) (sent : List Command) :
    ((byHeart opening timeout).ask commands).run ⟨true, .answer a :: rest, sent⟩ =
      pure (a.accept, ⟨true, rest, commands.reverse ++ sent⟩) := rfl

theorem run_begin (todo : List Command) (turns : List Turn) (sent : List Command) :
    ((byHeart opening timeout).begin todo).run
        ⟨true, todo.map (fun _ ↦ .answer (.status "OK")) ++ turns, sent⟩ =
      pure (.ok (), ⟨true, turns, todo.reverse ++ sent⟩) := by
  induction todo generalizing sent with
  | nil => rfl
  | cons command rest ih =>
    calc _ = ((byHeart opening timeout).begin rest).run
          ⟨true, rest.map (fun _ ↦ .answer (.status "OK")) ++ turns, [command] ++ sent⟩ := rfl
      _ = _ := by rw [ih, List.reverse_cons, List.append_assoc]

theorem run_connect (ht : timeout.isZero = false) (a : Answer) (rest : List Turn)
    (sent : List Command) :
    (byHeart opening timeout).connect.run (willing opening a rest sent) =
      pure (.ok (), ⟨true, .answer a :: rest, opening.reverse ++ sent⟩) := by
  have hz : (byHeart opening timeout).timeout.isZero = false := ht
  rw [connect, hz]
  exact run_begin opening (.answer a :: rest) sent

/-- A willing server's answer is read, unless it holds a refusal. -/
theorem run_call (ht : timeout.isZero = false) (a : Answer) (rest : List Turn)
    (sent : List Command) :
    ((byHeart opening timeout).call commands read).run (willing opening a rest sent) =
      (a.accept.bind read, ⟨true, rest, commands.reverse ++ opening.reverse ++ sent⟩) := by
  rw [call, StateT.run_bind, run_connect ht, pure_bind, StateT.run_bind, run_ask, pure_bind,
    List.append_assoc]
  cases a.accept <;> rfl

/-- A procedure that the server knows and carries out is sent once. -/
theorem run_run (opening : List Command) (ht : timeout.isZero = false) {a b : Answer}
    (ha : a.accept = .ok b) (p : Procedure) (keys args : List String) (rest : List Turn)
    (sent : List Command) :
    ((byHeart opening timeout).toRecordStore.run p keys args).run (willing opening a rest sent) =
      pure (.ok (), ⟨true, rest, invocation p keys args :: opening.reverse ++ sent⟩) := by
  change ((byHeart opening timeout).connect >>= _).run _ = _
  rw [StateT.run_bind, run_connect ht, pure_bind]
  change (((byHeart opening timeout).ask [invocation p keys args]) >>= _).run _ = _
  rw [StateT.run_bind, run_ask, pure_bind, ha]
  rfl

theorem run_call_of_unreachable (ht : timeout.isZero = false) {s : Rehearsed}
    (hs : s.reachable = false) :
    ((byHeart opening timeout).call commands read).run s =
      (.error (.unavailable (.other "connection refused")), s) := by
  have hz : (byHeart opening timeout).timeout.isZero = false := ht
  have hl : (byHeart opening timeout).link.connect.run s =
      pure (.error (.other "connection refused"), s) := by
    change Rehearsed.connect s = _
    rw [Rehearsed.connect, hs]
    rfl
  rw [call, connect, hz, if_neg Bool.false_ne_true, StateT.run_bind, StateT.run_bind, hl, pure_bind]
  rfl

end Remote

end UniqueJobs
