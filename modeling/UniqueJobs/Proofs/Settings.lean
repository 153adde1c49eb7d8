import UniqueJobs.Settings
import UniqueJobs.Proofs.Text.Variant

/-!
Which variables settings can be loaded from, and what they are then. `Settings.Loads` says of each
field what it is, from its own variable or by default, and nothing of the order of reading. Main
statement: `load_settles`.
-/

namespace UniqueJobs

open Text

namespace Settings

/-- Does a value stand for a number? -/
def StandsFor (value : String) (n : Nat) : Prop :=
  ∃ s, Padded value.toList s ∧ Numeral 10 s n

/-- Does a value stand for a number from one to `most`, and is a time as many units long? -/
def Lasts (most unit : Nat) (value : String) (d : Duration) : Prop :=
  ∃ n, StandsFor value n ∧ 1 ≤ n ∧ n ≤ most ∧ d.nanos = n * unit

/-- Is a text a valid value of a variable? -/
def Var.Valid : Var → String → Prop
  | .keyspace, _ | .ownUrl, _ | .sharedUrl, _ => True
  | .window, value | .latestTtl, value => ∃ n, StandsFor value n ∧ 1 ≤ n ∧ n ≤ 31_622_400
  | .timeout, value => ∃ n, StandsFor value n ∧ 1 ≤ n ∧ n ≤ UInt64.size - 1
  | .policy, value => SpelledAs "open" value ∨ SpelledAs "closed" value

theorem readNumber_eq_ok_iff {var : Var} {value : String} {n : Nat} :
    readNumber var value = .ok n ↔ StandsFor value n ∧ n ≤ UInt64.size - 1 := by
  have hread : readNumber var value = .ok n ↔
      readNat 10 (UInt64.size - 1) (trim value.toList) = .ok n := by
    unfold readNumber
    split <;> simp_all
  rw [hread, readNat_eq_ok_iff]
  refine and_congr_left fun _ ↦ ⟨fun h ↦ ⟨_, padded_trim _, h⟩, ?_⟩
  rintro ⟨s, hpadded, hnumeral⟩
  rwa [trim_of_padded hpadded hnumeral.ne_nil hnumeral.isBlank]

theorem var_of_readNumber {var : Var} {value : String} {e : LoadError}
    (h : readNumber var value = .error e) : e.var = var := by
  unfold readNumber at h
  split at h
  · cases h
  · cases h
    rfl

section Times

variable {most unit n : Nat} {var : Var} {value : String} {d : Duration}

/-- A number that is read decides which time a value stands for. -/
theorem lasts_iff_of_readNumber (h : readNumber var value = .ok n) (hmost : most ≤ UInt64.size - 1)
    (hunit : most * unit < Duration.limit) :
    Lasts most unit value d ↔ (1 ≤ n ∧ n ≤ most) ∧ d = .ofNanos (n * unit) := by
  have hnanos (hn : n ≤ most) : (Duration.ofNanos (n * unit)).nanos = n * unit := by
    have hle : n * unit ≤ most * unit := Nat.mul_le_mul_right unit hn
    rw [Duration.nanos_ofNanos]
    omega
  constructor
  · rintro ⟨n', hstands, hpos, hle, hd⟩
    have hread : readNumber var value = .ok n' :=
      readNumber_eq_ok_iff.mpr ⟨hstands, Nat.le_trans hle hmost⟩
    obtain rfl : n' = n := Except.ok.inj (hread.symm.trans h)
    rw [← hd, Duration.ofNanos, Duration.ofNanos?_nanos]
    exact ⟨⟨hpos, hle⟩, rfl⟩
  · rintro ⟨⟨hpos, hle⟩, rfl⟩
    exact ⟨n, (readNumber_eq_ok_iff.mp h).1, hpos, hle, hnanos hle⟩

theorem not_lasts_of_readNumber {e : LoadError} (h : readNumber var value = .error e)
    (hmost : most ≤ UInt64.size - 1) : ¬ Lasts most unit value d := by
  rintro ⟨n, hstands, -, hle, -⟩
  have hread : readNumber var value = .ok n :=
    readNumber_eq_ok_iff.mpr ⟨hstands, Nat.le_trans hle hmost⟩
  cases hread.symm.trans h

theorem exists_lasts_iff (hunit : most * unit < Duration.limit) :
    (∃ d, Lasts most unit value d) ↔ ∃ n, StandsFor value n ∧ 1 ≤ n ∧ n ≤ most := by
  constructor
  · rintro ⟨d, n, hstands, hpos, hle, -⟩
    exact ⟨n, hstands, hpos, hle⟩
  · rintro ⟨n, hstands, hpos, hle⟩
    exact ⟨⟨n * unit, Nat.lt_of_le_of_lt (Nat.mul_le_mul_right unit hle) hunit⟩, n, hstands, hpos,
      hle, rfl⟩

end Times

theorem ofName?_eq_some_iff {s : String} {p : OutagePolicy} :
    OutagePolicy.ofName? s = some p ↔ s = p.name := by
  constructor
  · intro h
    unfold OutagePolicy.ofName? at h
    split at h
    · obtain rfl := Option.some.inj h
      rfl
    · obtain rfl := Option.some.inj h
      rfl
    · cases h
  · rintro rfl
    cases p <;> rfl

theorem readPolicy_eq_ok_iff {var : Var} {value : String} {p : OutagePolicy} :
    readPolicy var value = .ok p ↔ SpelledAs p.name value := by
  have hname : p.name.toList.all Char.isLower = true := by cases p <;> rfl
  rw [spelledAs_iff (List.all_eq_true.mp hname), ← ofName?_eq_some_iff, readPolicy]
  cases OutagePolicy.ofName? (String.ofList (value.toList.map Char.toLower)) with
  | none => exact iff_of_false nofun nofun
  | some p' => simp

/-! ### One variable -/

/-- A reader of a variable takes the values that mean something, which are the valid ones, and its
errors name the variable. -/
structure Reads {α : Type} (read : Var → String → Except LoadError α) (var : Var)
    (means : String → α → Prop) : Prop where
  ok_iff : ∀ value a, read var value = .ok a ↔ means value a
  valid_iff : ∀ value, var.Valid value ↔ ∃ a, means value a
  names : ∀ value e, read var value = .error e → e.var = var

/-- A reader of a number of units takes just the times of one to `most`, whichever condition it
checks that means so for a number of 64 bits. -/
theorem reads_time {read : Var → String → Except LoadError Duration} {var : Var} {most unit : Nat}
    {inRange : Nat → Prop} [DecidablePred inRange] {fault : LoadFault}
    (hread : ∀ value, read var value = match readNumber var value with
      | .error e => .error e
      | .ok n => if inRange n then .ok (.ofNanos (n * unit)) else .error ⟨var, toString n, fault⟩)
    (hrange : ∀ n, n ≤ UInt64.size - 1 → (inRange n ↔ 1 ≤ n ∧ n ≤ most))
    (hmost : most ≤ UInt64.size - 1) (hunit : most * unit < Duration.limit)
    (hvalid : ∀ value, var.Valid value ↔ ∃ n, StandsFor value n ∧ 1 ≤ n ∧ n ≤ most) :
    Reads read var (Lasts most unit) where
  ok_iff value d := by
    rw [hread]
    cases hnumber : readNumber var value with
    | error e => exact iff_of_false nofun (not_lasts_of_readNumber hnumber hmost)
    | ok n =>
      have hn : n ≤ UInt64.size - 1 := (readNumber_eq_ok_iff.mp hnumber).2
      simp only
      rw [lasts_iff_of_readNumber hnumber hmost hunit, ← hrange n hn]
      split
      · rename_i hin
        rw [Except.ok.injEq, and_iff_right hin, eq_comm]
      · rename_i hout
        exact iff_of_false nofun fun h ↦ hout h.1
  valid_iff value := (hvalid value).trans (exists_lasts_iff hunit).symm
  names value e h := by
    rw [hread] at h
    split at h
    · rename_i hnumber
      obtain rfl := Except.error.inj h
      exact var_of_readNumber hnumber
    · split at h
      · cases h
      · cases h
        rfl

theorem reads_window : Reads readTtl .window (Lasts 31_622_400 1_000_000_000) :=
  reads_time (fun _ ↦ rfl) (fun _ _ ↦ .rfl) (by decide) (by decide) fun _ ↦ .rfl

theorem reads_latestTtl : Reads readTtl .latestTtl (Lasts 31_622_400 1_000_000_000) :=
  reads_time (fun _ ↦ rfl) (fun _ _ ↦ .rfl) (by decide) (by decide) fun _ ↦ .rfl

theorem reads_timeout : Reads readTimeout .timeout (Lasts (UInt64.size - 1) 1_000_000) :=
  reads_time (fun _ ↦ rfl) (fun _ hn ↦ (and_iff_left hn).symm) (Nat.le_refl _) (by decide)
    fun _ ↦ .rfl

theorem reads_policy : Reads readPolicy .policy fun value p ↦ SpelledAs p.name value where
  ok_iff _ _ := readPolicy_eq_ok_iff
  valid_iff value := by
    constructor
    · rintro (h | h)
      · exact ⟨.proceed, h⟩
      · exact ⟨.refuse, h⟩
    · rintro ⟨p, h⟩
      cases p with
      | proceed => exact .inl h
      | refuse => exact .inr h
  names value e h := by
    unfold readPolicy at h
    split at h
    · cases h
    · cases h
      rfl

/-- Is the value of a variable valid, if it has one? -/
def Acceptable (lookup : String → Option String) (var : Var) : Prop :=
  ∀ value, lookup var.name = some value → var.Valid value

/-- Is a variable the first of a list whose value is not valid? -/
def FirstInvalid (lookup : String → Option String) (vars : List Var) (var : Var) : Prop :=
  ∃ before after, vars = before ++ var :: after ∧ ¬ Acceptable lookup var ∧
    ∀ v ∈ before, Acceptable lookup v

/-- Is a field what the value of its variable means, or its default where there is none? -/
def Taken {α : Type} (found : Option String) (means : String → α → Prop) (missing field : α) :
    Prop :=
  match found with
  | some value => means value field
  | none => field = missing

section Field

variable {α β : Type} {lookup : String → Option String} {var v : Var} {vars : List Var}
  {read : Var → String → Except LoadError α} {means : String → α → Prop} {missing a : α}
  {rest : α → Except LoadError β} {b : β} {e : LoadError}

theorem FirstInvalid.head (h : ¬ Acceptable lookup var) : FirstInvalid lookup (var :: vars) var :=
  ⟨[], vars, rfl, h, nofun⟩

theorem FirstInvalid.tail (hv : Acceptable lookup v) (h : FirstInvalid lookup vars var) :
    FirstInvalid lookup (v :: vars) var := by
  obtain ⟨before, after, rfl, hvar, hbefore⟩ := h
  exact ⟨v :: before, after, rfl, hvar, List.forall_mem_cons.mpr ⟨hv, hbefore⟩⟩

theorem Taken.imp {found : Option String} {P : α → Prop} (h : Taken found means missing a)
    (hmissing : P missing) (hmeans : ∀ value a, means value a → P a) : P a := by
  cases found with
  | none => exact h ▸ hmissing
  | some value => exact hmeans value a h

theorem Reads.readOr_eq_ok_iff (h : Reads read var means) :
    readOr lookup var read missing = .ok a ↔ Taken (lookup var.name) means missing a := by
  unfold readOr Taken
  cases lookup var.name with
  | some value => exact h.ok_iff value a
  | none => exact Except.ok.injEq missing a ▸ eq_comm

theorem Reads.acceptable_of_taken (h : Reads read var means)
    (ha : Taken (lookup var.name) means missing a) : Acceptable lookup var := by
  intro value hvalue
  rw [hvalue] at ha
  exact (h.valid_iff value).mpr ⟨a, ha⟩

theorem Reads.invalid_of_readOr (h : Reads read var means)
    (herror : readOr lookup var read missing = .error e) :
    e.var = var ∧ ¬ Acceptable lookup var := by
  unfold readOr at herror
  cases hvalue : lookup var.name with
  | none => simp [hvalue] at herror
  | some value =>
    simp only [hvalue] at herror
    refine ⟨h.names value e herror, fun hvalid ↦ ?_⟩
    obtain ⟨a, ha⟩ := (h.valid_iff value).mp (hvalid value hvalue)
    rw [← h.ok_iff, herror] at ha
    cases ha

/-- Reading a field and then the rest gives something just if both are possible. -/
theorem Reads.bind_eq_ok_iff (h : Reads read var means) :
    (readOr lookup var read missing >>= rest) = .ok b ↔
      ∃ a, Taken (lookup var.name) means missing a ∧ rest a = .ok b := by
  simp only [← h.readOr_eq_ok_iff]
  cases readOr lookup var read missing <;> simp [bind, Except.bind]

/-- An error of reading a field and then the rest is about the first variable with an invalid value,
if that holds of the rest. -/
theorem Reads.firstInvalid_of_bind (h : Reads read var means)
    (herror : (readOr lookup var read missing >>= rest) = .error e)
    (hrest : ∀ a, rest a = .error e → FirstInvalid lookup vars e.var) :
    FirstInvalid lookup (var :: vars) e.var := by
  cases hread : readOr lookup var read missing with
  | error e' =>
    rw [hread] at herror
    obtain rfl : e' = e := Except.error.inj herror
    obtain ⟨hvar, hinvalid⟩ := h.invalid_of_readOr hread
    rw [hvar]
    exact .head hinvalid
  | ok a =>
    rw [hread] at herror
    exact .tail (h.acceptable_of_taken (h.readOr_eq_ok_iff.mp hread)) (hrest a herror)

end Field

/-! ### All variables -/

/-- What settings are that are loaded from variables: each field what its own variable says. -/
structure Loads (lookup : String → Option String) (s : Settings) : Prop where
  keyspace : s.keyspace = (lookup "JOBGUARD_NAMESPACE").getD "jobguard"
  storeUrl : s.storeUrl =
    ((lookup "JOBGUARD_REDIS_URL").or (lookup "REDIS_URL")).getD "redis://localhost:6379"
  window : Taken (lookup "JOBGUARD_DUPLICATE_KEY_TTL_SECS") (Lasts 31_622_400 1_000_000_000)
    (.ofSecs 21_600) s.window
  latestTtl : Taken (lookup "JOBGUARD_WAL_LOCATION_TTL_SECS") (Lasts 31_622_400 1_000_000_000)
    (.ofSecs 60) s.latestTtl
  timeout : Taken (lookup "JOBGUARD_REQUEST_TIMEOUT_MS") (Lasts (UInt64.size - 1) 1_000_000)
    (.ofMillis 500) s.timeout
  policy : Taken (lookup "JOBGUARD_FAILURE_POLICY") (fun value p ↦ SpelledAs p.name value)
    .proceed s.policy

variable {lookup lookup' : String → Option String} {s : Settings} {e : LoadError}

theorem load_eq_ok_iff : load lookup = .ok s ↔ Loads lookup s := by
  simp only [load, reads_window.bind_eq_ok_iff, reads_latestTtl.bind_eq_ok_iff,
    reads_timeout.bind_eq_ok_iff, reads_policy.bind_eq_ok_iff, Except.ok.injEq]
  constructor
  · rintro ⟨window, hwindow, latestTtl, hlatest, timeout, htimeout, policy, hpolicy, rfl⟩
    exact ⟨rfl, rfl, hwindow, hlatest, htimeout, hpolicy⟩
  · intro h
    refine ⟨_, h.window, _, h.latestTtl, _, h.timeout, _, h.policy, ?_⟩
    obtain ⟨keyspace, window, latestTtl, storeUrl, timeout, policy⟩ := s
    obtain rfl := h.keyspace
    obtain rfl := h.storeUrl
    rfl

theorem firstInvalid_of_load (h : load lookup = .error e) :
    FirstInvalid lookup [.window, .latestTtl, .timeout, .policy] e.var :=
  reads_window.firstInvalid_of_bind h fun _ h ↦
    reads_latestTtl.firstInvalid_of_bind h fun _ h ↦
      reads_timeout.firstInvalid_of_bind h fun _ h ↦
        reads_policy.firstInvalid_of_bind h nofun

theorem Loads.acceptable (h : Loads lookup s) (var : Var) : Acceptable lookup var := by
  cases var with
  | keyspace | ownUrl | sharedUrl => exact fun _ _ ↦ trivial
  | window => exact reads_window.acceptable_of_taken h.window
  | latestTtl => exact reads_latestTtl.acceptable_of_taken h.latestTtl
  | timeout => exact reads_timeout.acceptable_of_taken h.timeout
  | policy => exact reads_policy.acceptable_of_taken h.policy

theorem exists_load_iff : (∃ s, load lookup = .ok s) ↔ ∀ var, Acceptable lookup var := by
  constructor
  · rintro ⟨s, h⟩ var
    exact (load_eq_ok_iff.mp h).acceptable var
  · intro h
    cases hload : load lookup with
    | ok s => exact ⟨s, rfl⟩
    | error e =>
      obtain ⟨_, _, _, hvar, -⟩ := firstInvalid_of_load hload
      exact absurd (h e.var) hvar

theorem Lasts.bounds {most unit : Nat} {value : String} {d : Duration}
    (h : Lasts most unit value d) : unit ≤ d.nanos ∧ d.nanos ≤ most * unit := by
  obtain ⟨n, -, hpos, hle, hd⟩ := h
  rw [hd]
  exact ⟨Nat.le_mul_of_pos_left unit hpos, Nat.mul_le_mul_right unit hle⟩

theorem Loads.window_bounds (h : Loads lookup s) :
    1_000_000_000 ≤ s.window.nanos ∧ s.window.nanos ≤ 31_622_400 * 1_000_000_000 :=
  h.window.imp (by decide) fun _ _ ↦ Lasts.bounds

theorem Loads.latestTtl_bounds (h : Loads lookup s) :
    1_000_000_000 ≤ s.latestTtl.nanos ∧ s.latestTtl.nanos ≤ 31_622_400 * 1_000_000_000 :=
  h.latestTtl.imp (by decide) fun _ _ ↦ Lasts.bounds

theorem Loads.timeout_pos (h : Loads lookup s) : 0 < s.timeout.nanos :=
  h.timeout.imp (P := fun d ↦ 0 < d.nanos) (by decide) fun _ _ hlasts ↦
    Nat.lt_of_lt_of_le (by decide : 0 < 1_000_000) hlasts.bounds.1

theorem load_congr (h : ∀ var, lookup' (Var.name var) = lookup (Var.name var)) :
    load lookup' = load lookup := by
  simp only [load, readOr, h]

theorem message_eq (e : LoadError) :
    e.message = "invalid value for " ++ e.var.name ++ ": " ++
      (Text.quoted e.value ++ " (" ++ e.fault.message ++ ")") := by
  have hmessage : e.message = "invalid value for " ++ e.var.name ++ ": " ++ Text.quoted e.value ++
      " (" ++ e.fault.message ++ ")" := rfl
  rw [hmessage]
  simp only [String.append_assoc]

/-- Settings are loaded just if each variable that is set has a valid value. They are what the
variables say then, with times that are in bounds; if not, the error is about the first variable at
fault. Nothing else that can be looked up matters. -/
theorem load_settles (lookup : String → Option String) :
    (∀ s, load lookup = .ok s ↔ Loads lookup s) ∧
    ((∃ s, load lookup = .ok s) ↔
      ∀ var value, lookup (Var.name var) = some value → var.Valid value) ∧
    (∀ s, load lookup = .ok s →
      (1_000_000_000 ≤ s.window.nanos ∧ s.window.nanos ≤ 31_622_400 * 1_000_000_000) ∧
      (1_000_000_000 ≤ s.latestTtl.nanos ∧ s.latestTtl.nanos ≤ 31_622_400 * 1_000_000_000) ∧
      0 < s.timeout.nanos) ∧
    (∀ e, load lookup = .error e →
      FirstInvalid lookup [.window, .latestTtl, .timeout, .policy] e.var ∧
      ∃ rest, e.message = "invalid value for " ++ e.var.name ++ ": " ++ rest) ∧
    ∀ lookup', (∀ var, lookup' (Var.name var) = lookup (Var.name var)) →
      load lookup' = load lookup := by
  refine ⟨fun s ↦ load_eq_ok_iff, exists_load_iff, fun s hload ↦ ?_, fun e hload ↦ ?_,
    fun lookup' ↦ load_congr⟩
  · have h := load_eq_ok_iff.mp hload
    exact ⟨h.window_bounds, h.latestTtl_bounds, h.timeout_pos⟩
  · exact ⟨firstInvalid_of_load hload, _, message_eq e⟩

/-- Three variables that are valid, with a sign, blanks and capitals, and an address to fall back
on. -/
def permitted (name : String) : Option String :=
  [("REDIS_URL", "redis://cache:6379"), ("JOBGUARD_DUPLICATE_KEY_TTL_SECS", " +0600\n"),
    ("JOBGUARD_REQUEST_TIMEOUT_MS", "18446744073709551615"),
    ("JOBGUARD_FAILURE_POLICY", "CLOSED")].lookup name

/-- Two variables that are not valid: a time of no length, and a policy with a blank. -/
def forbidden (name : String) : Option String :=
  [("JOBGUARD_FAILURE_POLICY", "open "), ("JOBGUARD_WAL_LOCATION_TTL_SECS", "0"),
    ("JOBGUARD_DUPLICATE_KEY_TTL_SECS", "31622400")].lookup name

theorem load_settles_permitted_forbidden :
    let s : Settings := ⟨"jobguard", .ofSecs 600, .ofSecs 60, "redis://cache:6379",
      .ofMillis 18446744073709551615, .refuse⟩
    (Loads permitted s ∧ 1_000_000_000 ≤ s.window.nanos ∧
      load (fun name ↦ if name = "PATH" then some "" else permitted name) = .ok s) ∧
    ∃ e, load forbidden = .error e ∧
      FirstInvalid forbidden [.window, .latestTtl, .timeout, .policy] .latestTtl ∧
      ∃ rest, e.message = "invalid value for JOBGUARD_WAL_LOCATION_TTL_SECS: " ++ rest := by
  intro s
  obtain ⟨hloads, -, hbounds, -, hcongr⟩ := load_settles permitted
  have hload : load permitted = .ok s := by decide +kernel
  let e : LoadError := ⟨.latestTtl, "0", .ttlRange⟩
  have herror : load forbidden = .error e := by decide +kernel
  obtain ⟨-, -, -, herrors, -⟩ := load_settles forbidden
  refine ⟨⟨(hloads s).mp hload, (hbounds s hload).1.1, ?_⟩, e, herror, herrors e herror⟩
  rw [← hload]
  refine hcongr _ fun var ↦ ?_
  cases var <;> rfl

end Settings

end UniqueJobs
