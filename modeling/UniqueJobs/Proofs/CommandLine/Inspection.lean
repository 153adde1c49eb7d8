import UniqueJobs.CommandLine.Report
import UniqueJobs.Proofs.Claimant.Replies

/-!
What an inspection makes of the replies to its requests, and what each of the three readers of
replies makes of too few of them.
-/

namespace UniqueJobs

namespace CommandLine.Inspection

variable {configs : List String} {replies : List Reply}

theorem bind_eq_ok_iff {ε α β : Type} {x : Except ε α} {f : α → Except ε β} {b : β} :
    (x >>= f) = .ok b ↔ ∃ a, x = .ok a ∧ f a = .ok b := by
  cases x with
  | error e => exact iff_of_false (fun h ↦ by cases h) (by simp)
  | ok a => simp [bind, Except.bind]

theorem next_eq_ok_iff {v : Option String} {rest : List Reply} :
    next replies = .ok (v, rest) ↔ replies = Reply.value v :: rest := by
  cases replies with
  | nil => simp [next]
  | cons reply replies => cases reply <;> simp [next, Reply.toValue]

theorem exists_two_values_iff {P : Option String → Option String → List Reply → Prop} :
    (∃ first rest, replies = Reply.value first :: rest ∧
      ∃ second more, rest = Reply.value second :: more ∧ P first second more) ↔
      ∃ first second more, replies = Reply.value first :: .value second :: more ∧
        P first second more := by
  constructor
  · rintro ⟨first, _, rfl, second, more, rfl, h⟩
    exact ⟨first, second, more, rfl, h⟩
  · rintro ⟨first, second, more, rfl, h⟩
    exact ⟨first, _, rfl, second, more, rfl, h⟩

theorem readPositions_cons_eq_ok_iff {i j : Inspection} {config : String} :
    readPositions i (config :: configs) replies = .ok j ↔
      ∃ baseline latest rest, replies = Reply.value baseline :: .value latest :: rest ∧
        readPositions { i with
            baselines := i.baselines.insert config baseline
            latest := i.latest.insert config latest } configs rest = .ok j := by
  simp only [readPositions, bind_eq_ok_iff, Prod.exists, next_eq_ok_iff]
  exact exists_two_values_iff

theorem read_eq_ok_iff {key : JobKey} {j : Inspection} :
    read key configs replies = .ok j ↔
      ∃ winner flag rest, replies = Reply.value winner :: .value flag :: rest ∧
        readPositions ⟨key, winner, flag.isSome, .empty, .empty⟩ configs rest = .ok j := by
  simp only [read, bind_eq_ok_iff, Prod.exists, next_eq_ok_iff]
  exact exists_two_values_iff

theorem length_requests (key : JobKey) (configs : List String) :
    (requests key configs).length = 2 + 2 * configs.length := by
  induction configs with
  | nil => rfl
  | cons config rest ih =>
    simp only [requests, List.flatMap_cons, List.length_append, List.length_cons, List.length_nil]
      at ih ⊢
    omega

theorem le_length_of_readPositions {i j : Inspection}
    (h : readPositions i configs replies = .ok j) : 2 * configs.length ≤ replies.length := by
  induction configs generalizing i replies with
  | nil => exact Nat.zero_le _
  | cons config rest ih =>
    obtain ⟨baseline, latest, more, rfl, h⟩ := readPositions_cons_eq_ok_iff.mp h
    have hle := ih h
    simp only [List.length_cons]
    omega

/-- Nothing is read from replies that are fewer than the requests. -/
theorem exists_error_of_read {key : JobKey} (h : replies.length < (requests key configs).length) :
    ∃ e, read key configs replies = .error e := by
  cases hread : read key configs replies with
  | error e => exact ⟨e, rfl⟩
  | ok j =>
    obtain ⟨winner, flag, rest, rfl, hrest⟩ := read_eq_ok_iff.mp hread
    have hle := le_length_of_readPositions hrest
    rw [length_requests] at h
    simp only [List.length_cons] at h
    omega

theorem requests_eq_reading (key : JobKey) (configs : List String) :
    requests key configs = (Record.holder :: .flag ::
      configs.flatMap fun config ↦ [.baseline config, .latest config]).map (·.reading key) := by
  simp only [requests, List.map_cons, List.map_flatMap, List.map_nil]
  rfl

/-- Does an inspection say of each record what its request has found? -/
structure Reports (found : Request → Option String) (k : JobKey) (configs : List String)
    (i : Inspection) : Prop where
  key : i.key = k
  winner : i.winner = found (.get k.text)
  flagged : i.flagged = (found (.get k.flag)).isSome
  baseline : ∀ config, i.baselines.get? config =
    if config ∈ configs then some (found (.get (k.baseline config))) else none
  latest : ∀ config, i.latest.get? config =
    if config ∈ configs then some (found (.item (k.latest config) 0)) else none

/-- A config that is listed twice is read twice, with the same result. -/
theorem readPositions_of_values (baseline latest : String → Option String) (configs : List String)
    (i : Inspection) :
    ∃ j, readPositions i configs (configs.flatMap fun config ↦
        [.value (baseline config), .value (latest config)]) = .ok j ∧
      j.key = i.key ∧ j.winner = i.winner ∧ j.flagged = i.flagged ∧
      (∀ config, j.baselines.get? config =
        if config ∈ configs then some (baseline config) else i.baselines.get? config) ∧
      ∀ config, j.latest.get? config =
        if config ∈ configs then some (latest config) else i.latest.get? config := by
  induction configs generalizing i with
  | nil => exact ⟨i, rfl, rfl, rfl, rfl, by simp, by simp⟩
  | cons head rest ih =>
    obtain ⟨j, hj, hkey, hwinner, hflagged, hbaselines, hlatest⟩ := ih { i with
      baselines := i.baselines.insert head (baseline head)
      latest := i.latest.insert head (latest head) }
    refine ⟨j, readPositions_cons_eq_ok_iff.mpr ⟨_, _, _, rfl, hj⟩, hkey, hwinner, hflagged,
      fun config ↦ ?_, fun config ↦ ?_⟩
    · rw [hbaselines, Dictionary.get?_insert]
      by_cases hhead : head = config <;> simp [hhead, eq_comm]
    · rw [hlatest, Dictionary.get?_insert]
      by_cases hhead : head = config <;> simp [hhead, eq_comm]

theorem exists_reports (found : Request → Option String) (key : JobKey) (configs : List String) :
    ∃ i, read key configs ((requests key configs).map fun r ↦ .value (found r)) = .ok i ∧
      Reports found key configs i := by
  obtain ⟨i, hi, hkey, hwinner, hflagged, hbaselines, hlatest⟩ := readPositions_of_values
    (fun config ↦ found (.get (key.baseline config)))
    (fun config ↦ found (.item (key.latest config) 0)) configs
    ⟨key, found (.get key.text), (found (.get key.flag)).isSome, .empty, .empty⟩
  refine ⟨i, read_eq_ok_iff.mpr ⟨found (.get key.text), found (.get key.flag), _, ?_, hi⟩,
    hkey, hwinner, hflagged, hbaselines, hlatest⟩
  simp [requests, List.map_flatMap]

end CommandLine.Inspection

open CommandLine

variable {σ : Type}

theorem CommandLine.run_inspect (store : RecordStore (StateM σ)) (key : JobKey)
    (configs : List String) (s : σ) :
    (Id.run ((inspect store key configs).run s)).1 =
      match (Id.run ((store.batch (Inspection.requests key configs)).run s)).1 with
      | .error e => .error (.reading e)
      | .ok replies => Inspection.read key configs replies := by
  rw [inspect, StateT.run_bind, Id.run_bind]
  generalize Id.run ((store.batch (Inspection.requests key configs)).run s) = answer
  rcases answer with ⟨e | replies, s₁⟩ <;> rfl

/-- Does the store reply to a batch, but to some of its last requests not? -/
structure Truncates (store : RecordStore (StateM σ)) (s : σ) (requests : List Request)
    (replies : List Reply) : Prop where
  answer : (Id.run ((store.batch requests).run s)).1 = .ok replies
  short : replies.length < requests.length

namespace Truncates

variable {store : RecordStore (StateM σ)} {s : σ} {c : Claimant} {replies : List Reply}

theorem check {window : Duration} (h : Truncates store s (c.claimRequests window) replies)
    (emit : Event → StateM σ Unit) :
    ∃ e, (Id.run ((c.check store emit window).run s)).1 = (.error (.store e), c) := by
  rcases c.check_cases store emit window s with ⟨found, winner, d, hanswer, hread, -⟩ | ⟨e, hr, -⟩
  · obtain rfl := Except.ok.inj (hanswer.symm.trans h.answer)
    obtain ⟨v, hv⟩ := (Claimant.exists_readClaim_iff.mp ⟨_, hread⟩).1 _ (Nat.le_refl _)
    have hlt := (List.getElem?_eq_some_iff.mp hv).1
    have hshort := h.short
    rw [(c.getElem?_claimRequests window).1] at hshort
    omega
  · exact ⟨e, hr⟩

theorem inspect {key : JobKey} {configs : List String}
    (h : Truncates store s (Inspection.requests key configs) replies) :
    ∃ e, (Id.run ((CommandLine.inspect store key configs).run s)).1 = .error e := by
  rw [run_inspect, h.answer]
  exact Inspection.exists_error_of_read h.short

theorem readLatest (hlatest : c.latest = none) (h : Truncates store s
      (c.locations.keys.map fun config ↦ .item (c.key.latest config) 0) replies) :
    (Id.run ((c.readLatest store).run s)).1 =
      match Claimant.pairValues c.locations.keys replies with
      | .error e => (.error (.store e), c)
      | .ok latest => (.ok latest, { c with latest := some latest }) := by
  have hsome : c.locations.isEmpty = false := by
    have hshort := h.short
    rw [List.length_map, Dictionary.length_keys] at hshort
    cases hempty : c.locations.isEmpty with
    | false => rfl
    | true =>
      rw [Dictionary.size, List.isEmpty_iff.mp hempty] at hshort
      exact absurd hshort (Nat.not_lt_zero _)
  have hrun := Claimant.run_readLatest hlatest hsome store s
  rw [h.answer] at hrun
  exact hrun

/-- On a truncated answer a check and an inspection fail. A reading of the furthest locations takes
the replies there are: it fails if one of them is no value, and otherwise a location whose reply is
missing is taken to be absent, and that is kept. -/
theorem refused_or_taken (store : RecordStore (StateM σ)) (s : σ) (replies : List Reply)
    (c : Claimant) (emit : Event → StateM σ Unit) (window : Duration) (key : JobKey)
    (configs : List String) :
    (Truncates store s (c.claimWrites window ++ c.claimReads) replies →
      ∃ e, (Id.run ((c.check store emit window).run s)).1 = (.error (.store e), c)) ∧
    (Truncates store s (Inspection.requests key configs) replies →
      ∃ e, (Id.run ((CommandLine.inspect store key configs).run s)).1 = .error e) ∧
    (c.latest = none → Truncates store s
        (c.locations.keys.map fun config ↦ .item (c.key.latest config) 0) replies →
      let r := (Id.run ((c.readLatest store).run s)).1
      ((∃ reply ∈ replies, reply.isValue = false) ↔ ∃ e, r = (.error (.store e), c)) ∧
      ((∀ reply ∈ replies, reply.isValue = true) ↔
        ∃ d, r = (.ok d, { c with latest := some d }) ∧
          Claimant.ReadFrom (c.locations.keys.take replies.length) replies d)) := by
  refine ⟨fun h ↦ check h emit, inspect, fun hlatest h ↦ ?_⟩
  have hall := Claimant.exists_pairValues_iff c.locations.keys replies
  have hshort := h.short
  rw [List.length_map] at hshort
  rw [List.take_of_length_le (Nat.le_of_lt hshort), List.all_eq_true] at hall
  rw [readLatest hlatest h]
  cases hread : Claimant.pairValues c.locations.keys replies with
  | error e =>
    have hsome : ¬ ∀ reply ∈ replies, reply.isValue = true := by
      rw [← hall, hread]
      simp
    refine ⟨iff_of_true (by simpa using hsome) ⟨e, rfl⟩, iff_of_false hsome ?_⟩
    rintro ⟨d, hd, -⟩
    cases congrArg Prod.fst hd
  | ok d =>
    have hvalues : ∀ reply ∈ replies, reply.isValue = true := hall.mp ⟨d, hread⟩
    have hfrom := (Claimant.pairValues_eq_ok_iff c.locations.nodup_keys).mp hread
    refine ⟨iff_of_false (by simpa using hvalues) ?_, iff_of_true hvalues ⟨d, rfl, hfrom⟩⟩
    rintro ⟨e, he⟩
    cases congrArg Prod.fst he

/-- One reply to each of them: two fail, and the third has a location for the first config only. -/
theorem refused_or_taken_ofTwoConfigs :
    let c := Claimant.ofTwoConfigs
    (∃ e, (Id.run ((c.check (.answering [.value none]) (fun _ ↦ pure ()) (.ofMillis 1)).run ())).1 =
      (.error (.store e), c)) ∧
    (∃ e, (Id.run ((CommandLine.inspect (.answering [.value none]) ⟨"k"⟩ ["main"]).run ())).1 =
      .error e) ∧
    (∃ e, (Id.run ((c.readLatest (.answering [.deleted 1])).run ())).1 = (.error (.store e), c)) ∧
    ∃ d, (Id.run ((c.readLatest (.answering [.value (some "0/3")])).run ())).1 =
        (.ok d, { c with latest := some d }) ∧
      d.get? "main" = some "0/3" ∧ d.get? "spare" = none := by
  intro c
  have h (replies : List Reply) := refused_or_taken (.answering replies) () replies c
    (fun _ ↦ pure ()) (.ofMillis 1) ⟨"k"⟩ ["main"]
  obtain ⟨d, hd, hfrom⟩ :=
    ((h [.value (some "0/3")]).2.2 rfl ⟨rfl, by decide⟩).2.mp (by simp)
  have hmain := hfrom.reply 0 "main" rfl
  refine ⟨(h [.value none]).1 ⟨rfl, by decide⟩, (h [.value none]).2.1 ⟨rfl, by decide⟩,
    ((h [.deleted 1]).2.2 rfl ⟨rfl, by decide⟩).1.mp ⟨_, List.mem_cons_self, rfl⟩, d, hd, ?_,
    hfrom.only "spare" (by decide)⟩
  exact (Reply.value.inj (Option.some.inj hmain)).symm

end Truncates

/-- Does every reader of replies fail on a truncated answer, and keep to what it knew? -/
def RefusesTruncated : Prop :=
  ∀ {σ : Type} (store : RecordStore (StateM σ)) (s : σ) (replies : List Reply) (c : Claimant)
    (emit : Event → StateM σ Unit) (window : Duration) (key : JobKey) (configs : List String),
    (Truncates store s (c.claimWrites window ++ c.claimReads) replies →
      ∃ e, (Id.run ((c.check store emit window).run s)).1 = (.error e, c)) ∧
    (Truncates store s (Inspection.requests key configs) replies →
      ∃ e, (Id.run ((inspect store key configs).run s)).1 = .error e) ∧
    (c.latest = none → Truncates store s
        (c.locations.keys.map fun config ↦ .item (c.key.latest config) 0) replies →
      ∃ e, (Id.run ((c.readLatest store).run s)).1 = (.error e, c))

/-- No reply at all is taken for the answer that there are no locations. -/
theorem not_refusesTruncated : ¬ RefusesTruncated := by
  intro h
  obtain ⟨-, -, hlatest⟩ := h (.answering []) () [] .ofTwoConfigs (fun _ ↦ pure ()) (.ofMillis 1)
    ⟨"k"⟩ []
  obtain ⟨e, he⟩ := hlatest rfl ⟨rfl, by decide⟩
  cases congrArg Prod.fst he

end UniqueJobs
