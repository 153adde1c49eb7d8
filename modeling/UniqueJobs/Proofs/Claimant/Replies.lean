import UniqueJobs.Proofs.Claimant.Claim
import UniqueJobs.Proofs.Dictionary

/-!
What a claimant makes of the replies to its reads, whatever they are. `ReadFrom` says which reply is
about which config: the values that are read are those in the places of the configs, where every
config has one (`readValues_eq_ok_iff`) or as far as there are replies (`pairValues_eq_ok_iff`).
-/

namespace UniqueJobs

def Reply.isValue : Reply → Bool
  | value _ => true
  | _ => false

@[simp] theorem Reply.isValue_value (v : Option String) : (value v).isValue = true := rfl

theorem Reply.isValue_iff {r : Reply} : r.isValue = true ↔ ∃ v, r = Reply.value v := by
  cases r <;> simp [isValue]

/-- A store that gives the same replies to every batch. -/
def RecordStore.answering (replies : List Reply) : RecordStore (StateM Unit) where
  get _ := pure (.ok none)
  setIfAbsent _ _ _ := pure (.ok true)
  delete _ := pure (.ok 0)
  batch _ := pure (.ok replies)
  run _ _ _ := pure (.ok ())

/-- What an instance may have become by calls of any stores. Its other operations tell it nothing. -/
inductive Claimant.Becomes (c : Claimant) : Claimant → Prop
  | same : Becomes c c
  | checked {c' : Claimant} (h : Becomes c c') {σ : Type} (store : RecordStore (StateM σ))
      (emit : Event → StateM σ Unit) (window : Duration) (s : σ) :
      Becomes c (Id.run ((c'.check store emit window).run s)).1.2
  | read {c' : Claimant} (h : Becomes c c') {σ : Type} (store : RecordStore (StateM σ)) (s : σ) :
      Becomes c (Id.run ((c'.readLatest store).run s)).1.2

namespace Claimant

/-- Does each config have the reply in its place, and no other name a value? -/
structure ReadFrom (configs : List String) (replies : List Reply) (d : Dictionary String) :
    Prop where
  reply : ∀ (i : Nat) (config : String), configs[i]? = some config →
    replies[i]? = some (Reply.value (d.get? config))
  only : ∀ name ∉ configs, d.get? name = none

variable {configs : List String} {replies : List Reply} {d : Dictionary String}

namespace ReadFrom

theorem nil_iff : ReadFrom [] replies d ↔ d = .empty := by
  constructor
  · intro h
    exact Dictionary.ext_get? fun name ↦ h.only name List.not_mem_nil
  · rintro rfl
    exact ⟨fun i config hi ↦ by simp at hi, fun name _ ↦ rfl⟩

theorem cons_iff {config : String} {reply : Reply} (h : config ∉ configs) :
    ReadFrom (config :: configs) (reply :: replies) d ↔
      reply = Reply.value (d.get? config) ∧ ReadFrom configs replies (d.erase config) := by
  have hne : ∀ {i : Nat} {other : String}, configs[i]? = some other → config ≠ other := by
    rintro i _ hi rfl
    exact h (List.mem_of_getElem? hi)
  constructor
  · intro hd
    refine ⟨Option.some.inj (hd.reply 0 config rfl), fun i other hi ↦ ?_, fun name hname ↦ ?_⟩
    · rw [Dictionary.get?_erase, if_neg (hne hi)]
      exact hd.reply (i + 1) other hi
    · rw [Dictionary.get?_erase]
      split
      · rfl
      · rename_i hother
        exact hd.only name (by simp [hname, Ne.symm hother])
  · rintro ⟨rfl, hd⟩
    refine ⟨fun i other hi ↦ ?_, fun name hname ↦ ?_⟩
    · cases i with
      | zero =>
        obtain rfl := Option.some.inj hi
        rfl
      | succ i =>
        have hreply := hd.reply i other hi
        rwa [Dictionary.get?_erase, if_neg (hne hi)] at hreply
    · rw [List.mem_cons, not_or] at hname
      have hnone := hd.only name hname.2
      rwa [Dictionary.get?_erase, if_neg (Ne.symm hname.1)] at hnone

end ReadFrom

/-- What is read first goes into what is read of the rest, if it is there. -/
theorem erase_eq_iff {config : String} {rest : Dictionary String} (h : rest.get? config = none)
    (v : Option String) :
    d.get? config = v ∧ d.erase config = rest ↔
      d = match v with
        | some location => rest.insert config location
        | none => rest := by
  constructor
  · rintro ⟨rfl, rfl⟩
    refine Dictionary.ext_get? fun name ↦ ?_
    by_cases hname : config = name <;> cases hv : d.get? config <;> simp_all
  · rintro rfl
    refine ⟨by cases v <;> simp [h], Dictionary.ext_get? fun name ↦ ?_⟩
    by_cases hname : config = name <;> cases v <;> simp_all

/-- The values are read exactly if every config has one in its place, whatever follows. -/
theorem readValues_eq_ok_iff (h : configs.Nodup) :
    readValues configs replies = .ok d ↔ ReadFrom configs replies d := by
  induction configs generalizing replies d with
  | nil => simp [readValues, ReadFrom.nil_iff, eq_comm]
  | cons config configs ih =>
    obtain ⟨hconfig, hconfigs⟩ := List.nodup_cons.mp h
    cases replies with
    | nil =>
      constructor
      · intro hread
        cases hread
      · intro hd
        cases hd.reply 0 config rfl
    | cons reply replies =>
      rw [ReadFrom.cons_iff hconfig, ← ih hconfigs]
      cases reply with
      | set | deleted | added => simp [readValues, Reply.toValue]
      | value v =>
        cases hrest : readValues configs replies with
        | error e => simp [readValues, Reply.toValue, hrest]
        | ok rest =>
          have hnone := ((ih hconfigs).mp hrest).only config hconfig
          have hd := erase_eq_iff (d := d) hnone v
          rw [eq_comm (a := d.get? config), eq_comm (a := d.erase config)] at hd
          simp only [readValues, Reply.toValue, hrest, Reply.value.injEq, Except.ok.injEq, hd]
          cases v <;> simp [eq_comm]

theorem values_iff (n : Nat) (replies : List Reply) :
    (∀ i < n, ∃ v, replies[i]? = some (Reply.value v)) ↔
      n ≤ replies.length ∧ (replies.take n).all Reply.isValue = true := by
  induction n generalizing replies with
  | zero => simp
  | succ n ih =>
    rw [Nat.forall_lt_succ_left]
    cases replies with
    | nil => simp
    | cons reply replies =>
      simp only [List.getElem?_cons_succ, ih, List.getElem?_cons_zero, Option.some.injEq,
        ← Reply.isValue_iff, List.length_cons, Nat.add_le_add_iff_right, List.take_succ_cons,
        List.all_cons, Bool.and_eq_true]
      exact and_left_comm

theorem exists_readValues_iff (configs : List String) (replies : List Reply) :
    (∃ d, readValues configs replies = .ok d) ↔
      ∀ i < configs.length, ∃ v, replies[i]? = some (Reply.value v) := by
  rw [values_iff]
  induction configs generalizing replies with
  | nil => simp [readValues]
  | cons config rest ih =>
    cases replies with
    | nil => simp [readValues]
    | cons reply replies =>
      have ih := ih replies
      cases reply with
      | value v =>
        rw [List.length_cons, List.length_cons, Nat.add_le_add_iff_right, List.take_succ_cons,
          List.all_cons, Reply.isValue_value, Bool.true_and, ← ih, readValues, Reply.toValue]
        cases readValues rest replies with
        | error e => simp
        | ok d => cases v <;> simp
      | set | deleted | added => simp [readValues, Reply.toValue, Reply.isValue]

/-- Without a reply for every config, those that have one are read. -/
theorem pairValues_eq_readValues (configs : List String) (replies : List Reply) :
    pairValues configs replies = readValues (configs.take replies.length) replies := by
  induction configs generalizing replies with
  | nil => cases replies <;> rfl
  | cons config rest ih =>
    cases replies with
    | nil => rfl
    | cons reply replies =>
      simp only [pairValues, ih, List.length_cons, List.take_succ_cons, readValues]

theorem pairValues_eq_ok_iff (h : configs.Nodup) :
    pairValues configs replies = .ok d ↔ ReadFrom (configs.take replies.length) replies d := by
  rw [pairValues_eq_readValues, readValues_eq_ok_iff (h.sublist (List.take_sublist _ _))]

theorem exists_pairValues_iff (configs : List String) (replies : List Reply) :
    (∃ d, pairValues configs replies = .ok d) ↔
      (replies.take configs.length).all Reply.isValue = true := by
  rw [pairValues_eq_readValues, exists_readValues_iff, values_iff, List.length_take]
  rcases Nat.le_total replies.length configs.length with h | h
  · simp [Nat.min_eq_left h, List.take_of_length_le h]
  · simp [h]

variable {c : Claimant}

theorem readClaim_eq_ok_iff {winner : JobId} :
    c.readClaim replies = .ok (winner, d) ↔
      replies[c.writeCount]? = some (Reply.value (some winner.text)) ∧
        ReadFrom c.locations.keys (replies.drop (c.writeCount + 1)) d := by
  have hfirst : replies[c.writeCount]? = (replies.drop c.writeCount)[0]? := by simp
  have hrest : replies.drop (c.writeCount + 1) = (replies.drop c.writeCount).drop 1 := by simp
  rw [← readValues_eq_ok_iff c.locations.nodup_keys, readClaim, hfirst, hrest]
  cases replies.drop c.writeCount with
  | nil => simp
  | cons reply replies =>
    cases reply with
    | set | deleted | added => simp [Reply.toValue]
    | value v =>
      cases v with
      | none => simp [Reply.toValue]
      | some text =>
        cases hread : readValues c.locations.keys replies with
        | error e => simp [Reply.toValue, hread]
        | ok baselines =>
          cases winner
          simp [Reply.toValue, hread]

/-- The reads of a claim stand after its writes, those of the configs in the order of their names. -/
theorem getElem?_claimRequests (c : Claimant) (window : Duration) :
    (c.claimRequests window).length = c.writeCount + 1 + c.locations.size ∧
      (c.claimRequests window)[c.writeCount]? = some (.get c.key.text) ∧
      ∀ (i : Nat) (config : String), c.locations.keys[i]? = some config →
        (c.claimRequests window)[c.writeCount + 1 + i]? = some (.get (c.key.baseline config)) := by
  have hlen := c.length_claimWrites window
  refine ⟨?_, ?_, fun i config hi ↦ ?_⟩
  · rw [claimRequests, List.length_append, hlen, claimReads, List.length_cons, List.length_map,
      Dictionary.length_keys, Nat.add_assoc, Nat.add_comm 1]
  · rw [claimRequests, ← hlen, List.getElem?_append_right (Nat.le_refl _), Nat.sub_self]
    rfl
  · rw [claimRequests, ← hlen, Nat.add_assoc, List.getElem?_append_right (Nat.le_add_right _ _),
      Nat.add_sub_cancel_left, Nat.add_comm 1, claimReads, List.getElem?_cons_succ,
      List.getElem?_map, hi]
    rfl

theorem writeCount_eq (c : Claimant) :
    c.writeCount = if c.locations.size = 0 then 1 else c.locations.size + 2 := by
  simp [writeCount, Dictionary.isEmpty, Dictionary.size]

/-- A claim can be read exactly if its reads are replied to with values and there is a holder. -/
theorem exists_readClaim_iff :
    (∃ found, c.readClaim replies = .ok found) ↔
      (∀ i ≤ c.locations.size, ∃ v, replies[c.writeCount + i]? = some (Reply.value v)) ∧
        ∃ winner, replies[c.writeCount]? = some (Reply.value (some winner)) := by
  have hrest := exists_readValues_iff c.locations.keys (replies.drop (c.writeCount + 1))
  simp only [readValues_eq_ok_iff c.locations.nodup_keys, Dictionary.length_keys, List.getElem?_drop,
    Nat.add_assoc, Nat.add_comm 1] at hrest
  constructor
  · rintro ⟨⟨winner, d⟩, h⟩
    obtain ⟨hwinner, hd⟩ := readClaim_eq_ok_iff.mp h
    refine ⟨fun i hi ↦ ?_, winner.text, hwinner⟩
    cases i with
    | zero => exact ⟨_, hwinner⟩
    | succ i => exact hrest.mp ⟨d, hd⟩ i hi
  · rintro ⟨hvalues, text, hwinner⟩
    obtain ⟨d, hd⟩ := hrest.mpr fun i hi ↦ hvalues (i + 1) hi
    exact ⟨(⟨text⟩, d), readClaim_eq_ok_iff.mpr ⟨hwinner, hd⟩⟩

/-- What has been read once is not asked for again, whatever the store. -/
theorem readLatest_of_latest (h : c.latest = some d) {m : Type → Type} [Monad m]
    (store : RecordStore m) : c.readLatest store = pure (.ok d, c) := by
  rw [readLatest, h]

section Run

variable {σ : Type} {store : RecordStore (StateM σ)} {s : σ}

theorem run_check (c : Claimant) (store : RecordStore (StateM σ)) (emit : Event → StateM σ Unit)
    (window : Duration) (s : σ) :
    (Id.run ((c.check store emit window).run s)).1 =
      match (Id.run ((store.batch (c.claimRequests window)).run s)).1 with
      | .error e => (.error (.store e), c)
      | .ok replies =>
        match c.readClaim replies with
        | .error e => (.error (.store e), c)
        | .ok (winner, baselines) => (.ok winner, { c with winner := some winner, baselines }) := by
  rw [check, ← claimRequests, StateT.run_bind, Id.run_bind]
  generalize Id.run ((store.batch (c.claimRequests window)).run s) = answer
  rcases answer with ⟨e | replies, s₁⟩
  · rfl
  · dsimp only
    cases c.readClaim replies <;> rfl

theorem run_readLatest (hlatest : c.latest = none) (hsome : c.locations.isEmpty = false)
    (store : RecordStore (StateM σ)) (s : σ) :
    (Id.run ((c.readLatest store).run s)).1 =
      match (Id.run ((store.batch
        (c.locations.keys.map fun config ↦ .item (c.key.latest config) 0)).run s)).1 with
      | .error e => (.error (.store e), c)
      | .ok replies =>
        match pairValues c.locations.keys replies with
        | .error e => (.error (.store e), c)
        | .ok latest => (.ok latest, { c with latest := some latest }) := by
  rw [readLatest, hlatest]
  dsimp only
  rw [if_neg (by simp [hsome]), StateT.run_bind, Id.run_bind]
  generalize Id.run (StateT.run (store.batch _) s) = answer
  rcases answer with ⟨e | replies, s₁⟩
  · rfl
  · dsimp only
    cases pairValues c.locations.keys replies <;> rfl

/-- A check tells the claimant what it reads from the answer, or nothing. -/
theorem check_cases (c : Claimant) (store : RecordStore (StateM σ)) (emit : Event → StateM σ Unit)
    (window : Duration) (s : σ) :
    let answer := (Id.run ((store.batch (c.claimRequests window)).run s)).1
    let r := (Id.run ((c.check store emit window).run s)).1
    (∃ replies winner baselines, answer = .ok replies ∧
      c.readClaim replies = .ok (winner, baselines) ∧
      r = (.ok winner, { c with winner := some winner, baselines })) ∨
    ∃ e, r = (.error (.store e), c) ∧
      ∀ replies, answer = .ok replies → c.readClaim replies = .error e := by
  rw [run_check]
  rcases (Id.run ((store.batch (c.claimRequests window)).run s)).1 with e | replies
  · exact .inr ⟨e, rfl, by simp⟩
  · cases hread : c.readClaim replies with
    | error e =>
      refine .inr ⟨e, by simp [hread], ?_⟩
      rintro _ ⟨⟩
      exact hread
    | ok found => exact .inl ⟨replies, found.1, found.2, rfl, hread, by simp [hread]⟩

theorem readLatest_cases (c : Claimant) (store : RecordStore (StateM σ)) (s : σ) :
    let r := (Id.run ((c.readLatest store).run s)).1
    (∃ d, r = (.ok d, { c with latest := some d }) ∧ ∀ d', c.latest = some d' → d' = d) ∨
    ∃ e, r = (.error (.store e), c) ∧ c.latest = none := by
  cases hlatest : c.latest with
  | some d =>
    have hc : { c with latest := some d } = c := by rw [← hlatest]
    refine .inl ⟨d, ?_, by simp⟩
    rw [readLatest_of_latest hlatest store, hc]
    rfl
  | none =>
    by_cases hempty : c.locations.isEmpty = true
    · refine .inl ⟨.empty, ?_, by simp⟩
      rw [readLatest, hlatest]
      dsimp only
      rw [if_pos hempty]
      rfl
    · rw [run_readLatest hlatest (by simpa using hempty)]
      rcases (Id.run ((store.batch _).run s)).1 with e | replies
      · exact .inr ⟨e, rfl, rfl⟩
      · cases hread : pairValues c.locations.keys replies with
        | error e => exact .inr ⟨e, by simp [hread], rfl⟩
        | ok d => exact .inl ⟨d, by simp [hread], by simp⟩

theorem Becomes.latest {c' : Claimant} (h : c.Becomes c') (hlatest : c.latest = some d) :
    c'.latest = some d := by
  induction h with
  | same => exact hlatest
  | checked _ store emit window s ih =>
    rcases check_cases _ store emit window s with ⟨_, _, _, -, -, hr⟩ | ⟨_, hr, -⟩
    all_goals
      rw [hr]
      exact ih
  | read _ store s ih =>
    rcases readLatest_cases _ store s with ⟨e, hr, hsame⟩ | ⟨_, hr, hnone⟩
    · rw [hr, hsame d ih]
    · rw [hr]
      exact ih

/-- A check succeeds exactly on the answers that a claim can be read from. -/
theorem exists_check_iff (c : Claimant) (store : RecordStore (StateM σ))
    (emit : Event → StateM σ Unit) (window : Duration) (s : σ) :
    (∃ winner, (Id.run ((c.check store emit window).run s)).1.1 = .ok winner) ↔
      ∃ replies, (Id.run ((store.batch (c.claimRequests window)).run s)).1 = .ok replies ∧
        ∃ found, c.readClaim replies = .ok found := by
  rcases check_cases c store emit window s with
    ⟨replies, winner, d, hanswer, hread, hr⟩ | ⟨e, hr, herror⟩
  · rw [hr]
    exact iff_of_true ⟨winner, rfl⟩ ⟨replies, hanswer, _, hread⟩
  · rw [hr]
    refine iff_of_false (by simp) ?_
    rintro ⟨replies, hanswer, found, hread⟩
    rw [herror replies hanswer] at hread
    cases hread

variable {emit : Event → StateM σ Unit} {window : Duration}

theorem check_of_ok {winner : JobId}
    (hanswer : (Id.run ((store.batch (c.claimRequests window)).run s)).1 = .ok replies)
    (h : (Id.run ((c.check store emit window).run s)).1.1 = .ok winner) :
    ∃ baselines, c.readClaim replies = .ok (winner, baselines) ∧
      (Id.run ((c.check store emit window).run s)).1.2 =
        { c with winner := some winner, baselines } := by
  rcases check_cases c store emit window s with ⟨found, _, baselines, hfound, hread, hr⟩ | ⟨_, hr, -⟩
  · rw [hr] at h ⊢
    obtain rfl := Except.ok.inj h
    obtain rfl := Except.ok.inj (hfound.symm.trans hanswer)
    exact ⟨baselines, hread, rfl⟩
  · rw [hr] at h
    cases h

theorem check_of_error {e : ClaimError}
    (h : (Id.run ((c.check store emit window).run s)).1.1 = .error e) :
    (Id.run ((c.check store emit window).run s)).1.2 = c := by
  rcases check_cases c store emit window s with ⟨_, _, _, -, -, hr⟩ | ⟨_, hr, -⟩
  · rw [hr] at h
    cases h
  · rw [hr]

theorem readLatest_of_ok (h : (Id.run ((c.readLatest store).run s)).1.1 = .ok d) :
    (Id.run ((c.readLatest store).run s)).1.2.latest = some d := by
  rcases readLatest_cases c store s with ⟨_, hr, -⟩ | ⟨_, hr, -⟩
  · rw [hr] at h ⊢
    exact congrArg some (Except.ok.inj h)
  · rw [hr] at h
    cases h

theorem readLatest_of_error {e : ClaimError}
    (h : (Id.run ((c.readLatest store).run s)).1.1 = .error e) :
    (Id.run ((c.readLatest store).run s)).1.2 = c ∧ c.latest = none := by
  rcases readLatest_cases c store s with ⟨_, hr, -⟩ | ⟨_, hr, hnone⟩
  · rw [hr] at h
    cases h
  · rw [hr]
    exact ⟨rfl, hnone⟩

/-- A check takes from any list of replies those in the places of its reads. It succeeds if they are
values and there is a holder, and otherwise leaves the claimant as it was; and so does a failed
reading of the furthest locations, which are asked for until they have been read once. -/
theorem reads_replies_or_stays (c : Claimant) (store : RecordStore (StateM σ))
    (emit : Event → StateM σ Unit) (window : Duration) (s : σ) :
    let n := c.locations.size
    let w := if n = 0 then 1 else n + 2
    let requests := c.claimWrites window ++ c.claimReads
    let answer := (Id.run ((store.batch requests).run s)).1
    let r := (Id.run ((c.check store emit window).run s)).1
    let l := (Id.run ((c.readLatest store).run s)).1
    (c.locations.keys.length = n ∧ c.locations.keys.Pairwise (· < ·) ∧
      requests.length = w + 1 + n ∧ requests[w]? = some (.get c.key.text) ∧
      ∀ (i : Nat) (config : String), c.locations.keys[i]? = some config →
        requests[w + 1 + i]? = some (.get (c.key.baseline config))) ∧
    ((∃ winner, r.1 = .ok winner) ↔ ∃ replies, answer = .ok replies ∧
      w + 1 + n ≤ replies.length ∧ (∀ i ≤ n, ∃ v, replies[w + i]? = some (Reply.value v)) ∧
      ∃ winner, replies[w]? = some (Reply.value (some winner))) ∧
    (∀ replies winner, answer = .ok replies → r.1 = .ok winner →
      replies[w]? = some (Reply.value (some winner.text)) ∧
      r.2 = { c with winner := some winner, baselines := r.2.baselines } ∧
      (∀ (i : Nat) (config : String), c.locations.keys[i]? = some config →
        replies[w + 1 + i]? = some (Reply.value (r.2.baselines.get? config))) ∧
      ∀ name ∉ c.locations.keys, r.2.baselines.get? name = none) ∧
    (∀ e, r.1 = .error e → r.2 = c ∧ r.2.isDuplicate = c.isDuplicate) ∧
    (∀ e, l.1 = .error e → l.2 = c ∧ c.latest = none) ∧
    ∀ d, l.1 = .ok d → ∀ c', l.2.Becomes c' → ∀ {m : Type → Type} [Monad m]
      (other : RecordStore m), c'.readLatest other = pure (.ok d, c') := by
  intro n w requests answer r l
  have hw : w = c.writeCount := c.writeCount_eq.symm
  refine ⟨⟨Dictionary.length_keys _, c.locations.keys_ascending, ?_⟩, ?_, ?_, ?_, ?_, ?_⟩
  · rw [hw]
    exact c.getElem?_claimRequests window
  · refine (exists_check_iff c store emit window s).trans ?_
    simp only [exists_readClaim_iff, ← hw]
    refine exists_congr fun replies ↦ and_congr_right fun _ ↦ ?_
    refine (and_iff_right_of_imp fun h ↦ ?_).symm
    obtain ⟨v, hv⟩ := h.1 n (Nat.le_refl n)
    have hlt := (List.getElem?_eq_some_iff.mp hv).1
    omega
  · intro replies winner hanswer hwinner
    obtain ⟨baselines, hread, hr⟩ := check_of_ok hanswer hwinner
    obtain ⟨hholder, hbaselines⟩ := readClaim_eq_ok_iff.mp hread
    have hsame : r.2.baselines = baselines := congrArg Claimant.baselines hr
    rw [hsame, hw]
    refine ⟨hholder, hr, fun i config hi ↦ ?_, hbaselines.only⟩
    rw [← List.getElem?_drop]
    exact hbaselines.reply i config hi
  · intro e he
    have hr : r.2 = c := check_of_error he
    exact ⟨hr, congrArg isDuplicate hr⟩
  · intro e he
    exact readLatest_of_error he
  · intro d hd c' hc' m _ other
    exact readLatest_of_latest (hc'.latest (readLatest_of_ok hd)) other

end Run

/-- An instance with locations for two configs. -/
def ofTwoConfigs : Claimant :=
  ⟨.default, "w", none, ⟨"a"⟩, ⟨"k"⟩, .ofList [("main", "0/1"), ("spare", "0/1")], none, none, .empty,
    none⟩

/-- A claim is read from the fifth reply on, a reply too few or one that is no value leaves all as it
was, and what has been read is kept. -/
theorem reads_replies_or_stays_ofTwoConfigs :
    let replies := [Reply.set true, .set true, .set true, .added 2, .value (some "b"), .value none,
      .value (some "0/2"), .deleted 7]
    let check (l : List Reply) :=
      (Id.run ((ofTwoConfigs.check (.answering l) (fun _ ↦ pure ()) (.ofMillis 1)).run ())).1
    let read (l : List Reply) := (Id.run ((ofTwoConfigs.readLatest (.answering l)).run ())).1
    ((check replies).1 = .ok ⟨"b"⟩ ∧ (check replies).2.baselines.get? "main" = none ∧
      (check replies).2.baselines.get? "spare" = some "0/2") ∧
    (check (replies.take 6)).2 = ofTwoConfigs ∧
    (read [.value none, .deleted 1]).2 = ofTwoConfigs ∧
    (read [.value none, .value (some "0/3")]).2.readLatest (RecordStore.answering []) =
      pure (.ok (.ofList [("spare", "0/3")]), (read [.value none, .value (some "0/3")]).2) := by
  intro replies check read
  have h (l : List Reply) :=
    ofTwoConfigs.reads_replies_or_stays (.answering l) (fun _ ↦ pure ()) (.ofMillis 1) ()
  obtain ⟨-, -, hok, -⟩ := h replies
  obtain ⟨-, -, hbaselines, -⟩ := hok replies ⟨"b"⟩ rfl rfl
  have hmain := hbaselines 0 "main" rfl
  have hspare := hbaselines 1 "spare" rfl
  refine ⟨⟨rfl, ?_, ?_⟩, ?_, ?_, ?_⟩
  · exact (Reply.value.inj (Option.some.inj hmain)).symm
  · exact (Reply.value.inj (Option.some.inj hspare)).symm
  · exact ((h (replies.take 6)).2.2.2.1 _ rfl).1
  · exact ((h [.value none, .deleted 1]).2.2.2.2.1 _ rfl).1
  · exact (h [.value none, .value (some "0/3")]).2.2.2.2.2 _ rfl _ .same _

end Claimant

end UniqueJobs
