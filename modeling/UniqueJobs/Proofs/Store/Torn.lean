import UniqueJobs.Proofs.Store.Furthest

/-!
What a procedure that fails leaves behind. Numbers of keys and arguments, the texts of numbers and
what stands under the keys are looked at before anything is written, with one exception: an advance
writes its list before its config joins the set. Main statement: `failing_leaves`, that a failure
changes no live entry unless the advance is torn there, and which entry it changes then.
-/

namespace UniqueJobs

namespace Entries

variable {now : Instant} {list : String} {es : Entries}

/-- Names join anything but an entry of another kind, which then stays. -/
theorem addNames_of_registered_eq_none {name : String} (names : List String) (ttl : Duration)
    (h : registered (es.live? now name) = none) :
    (addNames now name names ttl es).1 = .error (.wrongType name) ∧
      ∀ other, live? now other (addNames now name names ttl es).2 = es.live? now other := by
  simp only [addNames, get?_purge]
  rcases hl : es.live? now name with _ | ⟨_ | _ | set, x⟩
  · simp [hl, registered] at h
  · exact ⟨rfl, fun other ↦ live?_purge name other es⟩
  · exact ⟨rfl, fun other ↦ live?_purge name other es⟩
  · simp [hl, registered] at h

theorem exists_addNames_of_registered {name : String} {set : NameSet} (names : List String)
    (ttl : Duration) (h : registered (es.live? now name) = some set) :
    ∃ added, (addNames now name names ttl es).1 = .ok added := by
  rw [addNames_fst]
  rcases hl : es.live? now name with _ | ⟨_ | _ | found, x⟩
  · exact ⟨_, rfl⟩
  · simp [hl, registered] at h
  · simp [hl, registered] at h
  · exact ⟨_, rfl⟩

/-- Is an advance torn? Its list takes the position, but its config finds no set to join: under the
key of the set, which may be that of the list, is an entry of another kind. -/
structure Torn (list : String) (e : Evaluation) (es : Entries) : Prop where
  raises : (raise e.now list e.location e.offset (.ofMillis e.ttl) es).1 = .ok ()
  unjoined : list = e.configs ∨ registered (es.live? e.now e.configs) = none

/-- An evaluation whose list takes the position lets the config join. -/
theorem advance_of_raise {e : Evaluation}
    (h : (raise e.now list e.location e.offset (.ofMillis e.ttl) es).1 = .ok ()) :
    let es' := (raise e.now list e.location e.offset (.ofMillis e.ttl) es).2
    let joins := addNames e.now e.configs [e.config] (.ofMillis e.ttl) es'
    advance e.now [list, e.configs] [e.location, e.offsetText, e.ttlText, e.config] es =
      (joins.1.map fun _ ↦ (), joins.2) := by
  intro es' joins
  have hraise : raise e.now list e.location e.offset (.ofMillis e.ttl) es = (.ok (), es') :=
    Prod.ext h rfl
  simp only [advance, e.reads_offset, e.reads_ttl, hraise]
  rfl

/-- The entry under the key of the set after the list has taken the position. -/
theorem registered_raise {e : Evaluation}
    (h : (raise e.now list e.location e.offset (.ofMillis e.ttl) es).1 = .ok ()) :
    registered (live? e.now e.configs
        (raise e.now list e.location e.offset (.ofMillis e.ttl) es).2) =
      if list = e.configs then none else registered (es.live? e.now e.configs) := by
  rw [live?_raise]
  by_cases hsame : list = e.configs
  · obtain ⟨items, x, hitems⟩ := raise_fst_of_ok h (deadline e.now (.ofMillis e.ttl))
    rw [if_pos hsame, if_pos hsame, hitems]
    rfl
  · rw [if_neg hsame, if_neg hsame]

theorem Torn.registered_eq_none {e : Evaluation} (h : Torn list e es) :
    registered (live? e.now e.configs
      (raise e.now list e.location e.offset (.ofMillis e.ttl) es).2) = none := by
  rw [registered_raise h.raises]
  rcases h.unjoined with hsame | hother
  · rw [if_pos hsame]
  · rw [hother]
    exact ite_self none

/-- A torn advance fails at the set, and its list has taken the position all the same. -/
theorem Torn.advance {e : Evaluation} (h : Torn list e es) :
    let r := runProcedure e.now .advance [list, e.configs]
      [e.location, e.offsetText, e.ttlText, e.config] es
    r.1 = .error (.wrongType e.configs) ∧ ∀ other, live? e.now other r.2 =
      if list = other then raised e.location e.offset e.expiry (es.live? e.now list)
      else es.live? e.now other := by
  intro r
  obtain ⟨hfails, hsame⟩ := addNames_of_registered_eq_none [e.config] (.ofMillis e.ttl)
    h.registered_eq_none
  have hr : r = _ := advance_of_raise h.raises
  rw [hr]
  refine ⟨congrArg (Except.map fun _ ↦ ()) hfails, fun other ↦ ?_⟩
  exact (hsame other).trans (live?_raise ..)

/-- An advance whose list takes the position fails at the set only. -/
theorem torn_of_error {e : Evaluation} {error : StoreError}
    (hraise : (raise e.now list e.location e.offset (.ofMillis e.ttl) es).1 = .ok ())
    (h : (advance e.now [list, e.configs] [e.location, e.offsetText, e.ttlText, e.config] es).1 =
      .error error) : Torn list e es where
  raises := hraise
  unjoined := by
    by_cases hsame : list = e.configs
    · exact .inl hsame
    have hset := registered_raise hraise
    rw [if_neg hsame] at hset
    refine .inr ?_
    cases hfound : registered (es.live? e.now e.configs) with
    | none => rfl
    | some set =>
      rw [hfound] at hset
      obtain ⟨added, hadded⟩ := exists_addNames_of_registered [e.config] (.ofMillis e.ttl) hset
      have hok := congrArg (Except.map fun _ ↦ ()) hadded
      rw [advance_of_raise hraise] at h
      cases h.symm.trans hok

/-- An advance that fails has changed no live entry or is torn. -/
theorem advance_of_error {keys args : List String} {error : StoreError}
    (h : (advance now keys args es).1 = .error error) :
    (∀ other, live? now other (advance now keys args es).2 = es.live? now other) ∨
      ∃ list e, e.now = now ∧ keys = [list, e.configs] ∧
        args = [e.location, e.offsetText, e.ttlText, e.config] ∧ Torn list e es := by
  rcases keys with _ | ⟨list, _ | ⟨configs, _ | ⟨third, rest⟩⟩⟩
  case cons.cons.nil =>
    rcases args with
      _ | ⟨location, _ | ⟨offset, _ | ⟨ttl, _ | ⟨config, _ | ⟨fifth, rest⟩⟩⟩⟩⟩
    case cons.cons.cons.cons.nil =>
      cases ho : Text.readInt64 offset.toList with
      | error f => exact .inl fun other ↦ by simp only [advance, ho]
      | ok o =>
        cases hd : Text.readNat 10 (UInt64.size - 1) ttl.toList with
        | error f => exact .inl fun other ↦ by simp only [advance, ho, hd]
        | ok millis =>
          cases hraise : (raise now list location o (.ofMillis millis) es).1 with
          | error refused =>
            have hpair : raise now list location o (.ofMillis millis) es =
                (.error refused, (raise now list location o (.ofMillis millis) es).2) :=
              Prod.ext hraise rfl
            refine .inl fun other ↦ ?_
            simp only [advance, ho, hd]
            rw [hpair]
            exact live?_raise_of_error hraise other
          | ok u =>
            let e : Evaluation := ⟨now, configs, location, offset, o, ho, ttl, millis, hd, config⟩
            exact .inr ⟨list, e, rfl, rfl, rfl, torn_of_error (e := e) hraise h⟩
    all_goals exact .inl fun other ↦ rfl
  all_goals exact .inl fun other ↦ rfl

end Entries

open Entries

namespace LocalStore

/-- A procedure that fails changes no live entry, except that a torn advance leaves the position in
its list. -/
theorem failing_leaves (s : LocalStore) (now : Instant) (p : Procedure)
    (keys args : List String) {error : StoreError}
    (h : (s.call (runProcedure now p keys args)).1 = .error error) :
    let s' := (s.call (runProcedure now p keys args)).2
    s'.available = s.available ∧
      ((∀ key, s'.entries.live? now key = s.entries.live? now key) ∨
        ∃ list e, e.now = now ∧ p = .advance ∧ keys = [list, e.configs] ∧
          args = [e.location, e.offsetText, e.ttlText, e.config] ∧ Torn list e s.entries ∧
          error = .wrongType e.configs ∧ ∀ key, s'.entries.live? now key =
            if list = key then raised e.location e.offset e.expiry (s.entries.live? now list)
            else s.entries.live? now key) := by
  intro s'
  cases ha : s.available with
  | false =>
    have hs : s' = s := by simp [s', call, ha]
    rw [hs]
    exact ⟨ha, .inl fun key ↦ rfl⟩
  | true =>
    have hcall : s.call (runProcedure now p keys args) =
        ((runProcedure now p keys args s.entries).1,
          { s with entries := (runProcedure now p keys args s.entries).2 }) := by
      simp [call, ha]
    have hs : s' = { s with entries := (runProcedure now p keys args s.entries).2 } :=
      congrArg Prod.snd hcall
    rw [hcall] at h
    rw [hs]
    refine ⟨ha, ?_⟩
    cases p with
    | release => exact .inl fun key ↦ live?_release_of_error h key
    | advance =>
      rcases advance_of_error h with hsame | ⟨list, e, rfl, rfl, rfl, htorn⟩
      · exact .inl hsame
      · obtain ⟨hfails, heffect⟩ := htorn.advance
        refine .inr ⟨list, e, rfl, rfl, rfl, rfl, htorn, ?_, heffect⟩
        exact Except.error.inj (h.symm.trans hfails)

/-- A text stands where an advance and a release look for a set. -/
def misplaced : LocalStore := ⟨Dictionary.empty.insert "s" ⟨.text "1", none⟩, true⟩

theorem failing_leaves_misplaced :
    let advanced := misplaced.call
      (runProcedure ⟨0⟩ .advance ["l", "s"] ["0/1", "5", "60000", "main"])
    let released := misplaced.call (runProcedure ⟨0⟩ .release ["k", "f", "s"] ["main"])
    (advanced.1 = .error (.wrongType "s") ∧ ∀ key ≠ "l",
      advanced.2.entries.live? ⟨0⟩ key = misplaced.entries.live? ⟨0⟩ key) ∧
    released.1 = .error (.wrongType "s") ∧
      ∀ key, released.2.entries.live? ⟨0⟩ key = misplaced.entries.live? ⟨0⟩ key := by
  intro advanced released
  have hadvanced : advanced.1 = .error (.wrongType "s") := rfl
  have hreleased : released.1 = .error (.wrongType "s") := rfl
  refine ⟨⟨hadvanced, fun key hkey ↦ ?_⟩, hreleased, ?_⟩
  · rcases (failing_leaves misplaced _ _ _ _ hadvanced).2 with
      hsame | ⟨list, e, -, -, hkeys, -, -, -, heffect⟩
    · exact hsame key
    · obtain rfl := (List.cons.inj hkeys).1
      exact (heffect key).trans (if_neg (Ne.symm hkey))
  · rcases (failing_leaves misplaced _ _ _ _ hreleased).2 with hsame | ⟨_, _, -, hp, -⟩
    · exact hsame
    · cases hp

/-- A torn advance has failed, and its list is there. -/
theorem not_failingChangesNothing :
    ¬ ∀ (s : LocalStore) (now : Instant) (p : Procedure) (keys args : List String)
      (error : StoreError), (s.call (runProcedure now p keys args)).1 = .error error →
        ∀ key, (s.call (runProcedure now p keys args)).2.entries.live? now key =
          s.entries.live? now key := by
  intro h
  have hlist := h misplaced ⟨0⟩ .advance ["l", "s"] ["0/1", "5", "60000", "main"]
    (.wrongType "s") rfl "l"
  exact absurd hlist (by decide +kernel)

end LocalStore

end UniqueJobs
