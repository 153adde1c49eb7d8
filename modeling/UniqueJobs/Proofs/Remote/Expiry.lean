import UniqueJobs.Proofs.Contest.Lifetime
import UniqueJobs.Proofs.Remote.Exchange
import UniqueJobs.Store.Address

/-!
Which times to live a claimant sends to a server. Those of sets and of names are brought within the
clock of the server; that of a furthest position is sent as the settings have it.
-/

namespace UniqueJobs

/-- The text of the milliseconds that a command gives something to live. The procedure with two keys
is told them by its third argument. -/
def Command.expiryText? (command : Command) : Option String :=
  match command.head? with
  | some "SET" => command[5]?
  | some "PEXPIRE" => command[2]?
  | some "EVALSHA" => if command[2]? = some "2" then command[7]? else none
  | _ => none

/-- Is it the text of a number of milliseconds that a server takes? -/
def InClock (text : String) : Prop := ∃ n, text = toString n ∧ 1 ≤ n ∧ n ≤ maxExpiry

theorem inClock_toString_iff (n : Nat) : InClock (toString n) ↔ 1 ≤ n ∧ n ≤ maxExpiry := by
  refine ⟨fun h ↦ ?_, fun h ↦ ⟨n, rfl, h⟩⟩
  obtain ⟨n', htext, hn'⟩ := h
  have hrepr : n.repr = n'.repr := htext
  have hread := @Text.readNat_repr n' (max n n') (Nat.le_max_right _ _)
  rw [← hrepr, Text.readNat_repr (Nat.le_max_left _ _)] at hread
  obtain rfl := Except.ok.inj hread
  exact hn'

theorem inClock_expiry (ttl : Duration) : InClock (toString (expiry ttl)) :=
  ⟨expiry ttl, rfl, one_le_expiry ttl, expiry_le ttl⟩

/-- If a command gives a time to live, is its text such a one? -/
def Command.Timed (P : String → Prop) (command : Command) : Prop :=
  ∀ text, command.expiryText? = some text → P text

namespace Command

variable {P : String → Prop} {command : Command}

theorem timed_of_eq_none (h : command.expiryText? = none) : command.Timed P := by
  intro text htext
  rw [h] at htext
  cases htext

theorem timed_of_eq_some {text : String} (h : command.expiryText? = some text) (hP : P text) :
    command.Timed P := by
  intro other hother
  rw [h] at hother
  obtain rfl := Option.some.inj hother
  exact hP

end Command

theorem Request.timed_commands (r : Request) : ∀ command ∈ r.commands, command.Timed InClock := by
  intro command hcommand
  cases r with
  | setIfAbsent key value ttl =>
    obtain rfl := List.mem_singleton.mp hcommand
    exact Command.timed_of_eq_some rfl (inClock_expiry ttl)
  | get | item | delete =>
    obtain rfl := List.mem_singleton.mp hcommand
    exact Command.timed_of_eq_none rfl
  | addNames key names ttl =>
    simp only [commands, List.mem_cons, List.not_mem_nil, or_false] at hcommand
    rcases hcommand with rfl | rfl | rfl
    · exact Command.timed_of_eq_none rfl
    · exact Command.timed_of_eq_some rfl (inClock_expiry ttl)
    · exact Command.timed_of_eq_some rfl (inClock_expiry ttl)

theorem timed_transaction (requests : List Request) :
    ∀ command ∈ transaction requests, command.Timed InClock := by
  intro command hcommand
  simp only [transaction, List.mem_append, List.mem_singleton, List.mem_flatMap] at hcommand
  rcases hcommand with (rfl | ⟨r, -, hr⟩) | rfl
  · exact Command.timed_of_eq_none rfl
  · exact r.timed_commands command hr
  · exact Command.timed_of_eq_none rfl

theorem Address.timed_opening (a : Address) {P : String → Prop} :
    ∀ command ∈ a.opening, command.Timed P := by
  intro command hcommand
  rw [opening, List.mem_append] at hcommand
  rcases hcommand with hcommand | hcommand
  · split at hcommand
    · obtain rfl := List.mem_singleton.mp hcommand
      exact Command.timed_of_eq_none rfl
    · cases hcommand
  · split at hcommand
    · cases hcommand
    · obtain rfl := List.mem_singleton.mp hcommand
      exact Command.timed_of_eq_none rfl

theorem expiryText?_invocation (list configs location offset text config : String) :
    Command.expiryText? (Remote.invocation .advance [list, configs]
      [location, offset, text, config]) = some text := by
  have hcount : toString 2 = "2" := by decide
  have hcommand : Remote.invocation .advance [list, configs] [location, offset, text, config] =
      ["EVALSHA", Digest.sha1 (Digest.utf8 Procedure.advance.source), "2", list, configs, location,
        offset, text, config] := by
    rw [Remote.invocation, List.length_cons, List.length_singleton, hcount]
    rfl
  rw [hcommand]
  rfl

namespace Remote

open Rehearsed (SendsOnly willing)

variable {opening : List Command} {timeout : Duration}

theorem sendsOnly_check (ho : ∀ command ∈ opening, command.Timed InClock) (c : Claimant)
    (window : Duration) :
    SendsOnly (c.check (byHeart opening timeout).toRecordStore (fun _ ↦ pure ()) window)
      (·.Timed InClock) := by
  have hbatch : SendsOnly
      ((byHeart opening timeout).toRecordStore.batch (c.claimRequests window))
      (·.Timed InClock) := by
    change SendsOnly (if _ then _ else _) _
    split
    · exact .pure _
    · exact sendsOnly_call ho (timed_transaction (c.claimRequests window))
  refine hbatch.bind fun answer ↦ ?_
  cases answer with
  | error e => exact .pure _
  | ok replies =>
    simp only
    split <;> exact .pure _

theorem sendsOnly_setFlag (ho : ∀ command ∈ opening, command.Timed InClock) (c : Claimant)
    (ttl : Duration) :
    SendsOnly (c.setFlag (byHeart opening timeout).toRecordStore ttl) (·.Timed InClock) := by
  rw [Claimant.setFlag]
  split
  · refine (sendsOnly_call ho (Request.timed_commands (.setIfAbsent _ _ ttl))).bind fun answer ↦ ?_
    cases answer <;> exact .pure _
  · exact .pure _

variable {measure : String → String → String → Except LsnError Int64}

theorem sendsOnly_offer {P : String → Prop} (ho : ∀ command ∈ opening, command.Timed P)
    {c : Claimant} (hP : P (toString c.settings.latestTtl.millis))
    (locations : List (String × String)) :
    SendsOnly (c.offer (byHeart opening timeout).toRecordStore
      (fun config location baseline ↦ pure (measure config location baseline)) locations)
      (·.Timed P) := by
  induction locations with
  | nil => exact .pure _
  | cons head rest ih =>
    obtain ⟨config, location⟩ := head
    rw [Claimant.offer, pure_bind]
    cases measure config location ((c.baselines.get? config).getD location) with
    | error e => exact .pure _
    | ok offset =>
      refine (sendsOnly_run ho (Command.timed_of_eq_none rfl)
        (Command.timed_of_eq_some (expiryText?_invocation ..) hP)).bind fun done ↦ ?_
      cases done with
      | error e => exact .pure _
      | ok _ => exact ih

theorem sendsOnly_offerLocations {P : String → Prop} (ho : ∀ command ∈ opening, command.Timed P)
    {c : Claimant} (hP : P (toString c.settings.latestTtl.millis)) :
    SendsOnly (c.offerLocations (byHeart opening timeout).toRecordStore
      fun config location baseline ↦ pure (measure config location baseline)) (·.Timed P) := by
  rw [Claimant.offerLocations]
  split
  · exact .pure _
  · split
    · exact .pure _
    · exact sendsOnly_offer ho hP _

/-- The time of a furthest position is sent as it is, by the first location at the latest. -/
theorem exists_sent_of_offerLocations (ht : timeout.isZero = false) {c : Claimant}
    (hempty : c.locations.isEmpty = false) (hwinner : c.winner.isNone = false)
    (hmeasures : c.CanMeasure measure c.locations.entries) {Q : Command → Prop}
    (h : SendsOnly (c.offerLocations (byHeart opening timeout).toRecordStore
      fun config location baseline ↦ pure (measure config location baseline)) Q) :
    ∃ command, Q command ∧
      command.expiryText? = some (toString c.settings.latestTtl.millis) := by
  rw [Claimant.offerLocations, hempty, hwinner, if_neg Bool.false_ne_true,
    if_neg Bool.false_ne_true] at h
  cases hentries : c.locations.entries with
  | nil => simp [Dictionary.isEmpty, hentries] at hempty
  | cons head rest =>
    obtain ⟨config, location⟩ := head
    rw [hentries] at h hmeasures
    obtain ⟨offset, hoffset⟩ := hmeasures config location List.mem_cons_self
    let invoked := invocation .advance [c.key.latest config, c.key.configs]
      [location, toString offset.toInt, toString c.settings.latestTtl.millis, config]
    refine ⟨invoked, ?_, expiryText?_invocation ..⟩
    obtain ⟨sent, hsent, hlast⟩ := h (willing opening (.integer 0) [] [])
    -- What was sent for the first location is still there after the others.
    have hrest : SendsOnly (c.offer (byHeart opening timeout).toRecordStore
        (fun config location baseline ↦ pure (measure config location baseline)) rest)
        (·.Timed fun _ ↦ True) := sendsOnly_offer (fun _ _ _ _ ↦ trivial) trivial rest
    obtain ⟨more, -, hmore⟩ := hrest ⟨true, [], invoked :: opening.reverse ++ []⟩
    have haccept : (Answer.integer 0).accept = .ok (.integer 0) := rfl
    have hfirst := run_run opening ht haccept .advance [c.key.latest config, c.key.configs]
      [location, toString offset.toInt, toString c.settings.latestTtl.millis, config] [] []
    have hrun : (c.offer (byHeart opening timeout).toRecordStore
          (fun config location baseline ↦ pure (measure config location baseline))
          ((config, location) :: rest)).run (willing opening (.integer 0) [] []) =
        (c.offer (byHeart opening timeout).toRecordStore
          (fun config location baseline ↦ pure (measure config location baseline)) rest).run
          ⟨true, [], invoked :: opening.reverse ++ []⟩ := by
      rw [Claimant.offer, pure_bind, hoffset, StateT.run_bind, hfirst, pure_bind]
    have hall : more.reverse ++ (invoked :: opening.reverse ++ []) = sent.reverse ++ [] := by
      rw [← hmore, ← hrun, hlast]
      rfl
    have hmem : invoked ∈ sent.reverse ++ [] := by
      rw [← hall]
      simp
    exact hsent invoked (by simpa using hmem)

end Remote

namespace Claimant

open Remote (byHeart)
open Rehearsed (SendsOnly)

/-- A window may have any length: a store in the process takes it and what is new lives for it, and
no server is sent a time beyond its clock. The time of a furthest position goes out as it is: the
store in the process refuses it where 64 bits do not hold its milliseconds, and a server is sent a
time that it takes exactly if it is one before. -/
theorem takes_any_window (c : Claimant) :
    (∀ s : Site, s.Calm → Sound c.key s.clock s.store.entries →
      (∀ window, let done := Id.run ((c.check Site.recordStore Site.emit window).run s)
        (∃ winner, done.1.1 = .ok winner) ∧ s.Lasting window done.2) ∧
      (∀ ttl, let done := Id.run ((c.setFlag Site.recordStore ttl).run s)
        done.1 = .ok () ∧ s.Lasting ttl done.2) ∧
      ∀ measure, c.winner.isNone = false → c.CanMeasure measure c.locations.entries →
        let done := Id.run ((c.offerLocations Site.recordStore fun config location baseline ↦
          pure (measure config location baseline)).run s)
        (done.1 = if c.locations.isEmpty ∨ c.settings.latestTtl.millis < UInt64.size then .ok ()
          else .error (.store (.script (.ttl (toString c.settings.latestTtl.millis) .tooLarge)))) ∧
        s.Lasting (.ofMillis c.settings.latestTtl.millis) done.2) ∧
    ∀ (a : Address) (timeout : Duration),
      let store := (byHeart a.opening timeout).toRecordStore
      (∀ window, SendsOnly (c.check store (fun _ ↦ pure ()) window) (·.Timed InClock)) ∧
      (∀ ttl, SendsOnly (c.setFlag store ttl) (·.Timed InClock)) ∧
      ∀ measure,
        let offer := c.offerLocations store fun config location baseline ↦
          pure (measure config location baseline)
        SendsOnly offer (·.Timed (· = toString c.settings.latestTtl.millis)) ∧
        (timeout.isZero = false → c.locations.isEmpty = false → c.winner.isNone = false →
          c.CanMeasure measure c.locations.entries →
          (SendsOnly offer (·.Timed InClock) ↔
            1 ≤ c.settings.latestTtl.millis ∧ c.settings.latestTtl.millis ≤ maxExpiry)) := by
  refine ⟨fun s hs hsound ↦ ⟨Site.check_lasting hs hsound, Site.setFlag_lasting hs c,
    fun measure hwinner hmeasures ↦ Site.offerLocations_lasting hs hsound hwinner hmeasures⟩,
    fun a timeout ↦ ⟨Remote.sendsOnly_check a.timed_opening c,
      Remote.sendsOnly_setFlag a.timed_opening c, fun measure ↦
      ⟨Remote.sendsOnly_offerLocations a.timed_opening rfl, ?_⟩⟩⟩
  intro ht hempty hwinner hmeasures
  rw [← inClock_toString_iff]
  constructor
  · intro h
    obtain ⟨command, hcommand, htext⟩ :=
      Remote.exists_sent_of_offerLocations ht hempty hwinner hmeasures h
    exact hcommand _ htext
  · exact Remote.sendsOnly_offerLocations a.timed_opening

/-- An instance that holds its window and keeps a furthest position for a time. -/
def keeping (latestTtl : Duration) : Claimant :=
  ⟨{ Settings.default with latestTtl }, "w", none, ⟨"a"⟩, ⟨"k"⟩, .ofList [("main", "0/1")], none,
    some ⟨"a"⟩, .empty, none⟩

theorem measures_keeping (latestTtl : Duration) :
    (keeping latestTtl).CanMeasure (fun _ _ _ ↦ .ok 0) (keeping latestTtl).locations.entries :=
  fun _ _ _ ↦ ⟨0, rfl⟩

/-- The longest window, and a furthest position that is kept for no time at all. -/
theorem takes_any_window_keeping :
    let s := Site.opened 0 ⟨0⟩
    let checked := Id.run (((keeping .zero).check Site.recordStore Site.emit .longest).run s)
    let offered := Id.run (((keeping .zero).offerLocations Site.recordStore fun _ _ _ ↦
      pure (.ok 0)).run s)
    (∃ winner, checked.1.1 = .ok winner) ∧ s.Lasting .longest checked.2 ∧
    offered.1 = .ok () ∧ s.Lasting (.ofMillis 0) offered.2 ∧
    ¬ SendsOnly ((keeping .zero).offerLocations (byHeart [] (.ofMillis 1)).toRecordStore
      fun _ _ _ ↦ pure (.ok 0)) (·.Timed InClock) := by
  obtain ⟨hlocal, hremote⟩ := takes_any_window (keeping .zero)
  obtain ⟨hcheck, -, hoffer⟩ := hlocal (.opened 0 ⟨0⟩) ⟨rfl, rfl⟩ (.empty _ _)
  obtain ⟨hwinner, hchecked⟩ := hcheck .longest
  obtain ⟨hok, hlasting⟩ := hoffer (fun _ _ _ ↦ .ok 0) rfl (measures_keeping _)
  have hmillis : (keeping .zero).settings.latestTtl.millis = 0 := rfl
  rw [hmillis] at hlasting
  rw [hmillis, if_pos (.inr (by decide))] at hok
  obtain ⟨-, -, hsent⟩ := hremote ⟨.socket "/", 0, none, none⟩ (.ofMillis 1)
  refine ⟨hwinner, hchecked, hok, hlasting, fun h ↦ ?_⟩
  have hrange := ((hsent fun _ _ _ ↦ .ok 0).2 rfl rfl rfl (measures_keeping _)).mp h
  exact absurd hrange.1 (by decide)

/-- Do offers of locations that can be measured succeed at a site, whatever their time? -/
def OffersSucceed : Prop :=
  ∀ (c : Claimant) (s : Site) (measure : String → String → String → Except LsnError Int64),
    s.Calm → Sound c.key s.clock s.store.entries → c.winner.isNone = false →
    c.CanMeasure measure c.locations.entries →
    (Id.run ((c.offerLocations Site.recordStore fun config location baseline ↦
      pure (measure config location baseline)).run s)).1 = .ok ()

/-- Do offers send no time that a server does not take? -/
def OffersInClock : Prop :=
  ∀ (c : Claimant) (a : Address) (timeout : Duration)
    (measure : String → String → String → Except LsnError Int64),
    SendsOnly (c.offerLocations (byHeart a.opening timeout).toRecordStore
      fun config location baseline ↦ pure (measure config location baseline)) (·.Timed InClock)

/-- A furthest position that is kept for the longest time, and one that is kept for none. -/
theorem not_offersSucceed_not_offersInClock : ¬ OffersSucceed ∧ ¬ OffersInClock := by
  have ht : (Duration.ofMillis 1).isZero = false := rfl
  refine ⟨fun h ↦ ?_, fun h ↦ ?_⟩
  · have hsize : UInt64.size ≤ (keeping .longest).settings.latestTtl.millis := by decide
    have hok := h (keeping .longest) (.opened 0 ⟨0⟩) (fun _ _ _ ↦ .ok 0) ⟨rfl, rfl⟩
      (.empty _ _) rfl (measures_keeping _)
    have hfails := (Site.offerLocations_lasting (c := keeping .longest) (s := .opened 0 ⟨0⟩)
      ⟨rfl, rfl⟩ (.empty _ _) rfl (measures_keeping _)).1
    have hlong : ¬ ((keeping .longest).locations.isEmpty = true ∨
        (keeping .longest).settings.latestTtl.millis < UInt64.size) :=
      not_or.mpr ⟨Bool.false_ne_true, Nat.not_lt_of_le hsize⟩
    rw [if_neg hlong] at hfails
    cases hok.symm.trans hfails
  · obtain ⟨command, hcommand, htext⟩ := Remote.exists_sent_of_offerLocations ht rfl rfl
      (measures_keeping .zero)
      (h (keeping .zero) ⟨.socket "/", 0, none, none⟩ (.ofMillis 1) fun _ _ _ ↦ .ok 0)
    have hrange := (inClock_toString_iff _).mp (hcommand _ htext)
    exact absurd hrange.1 (by decide)

end Claimant

end UniqueJobs
