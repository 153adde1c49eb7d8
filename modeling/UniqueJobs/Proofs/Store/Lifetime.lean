import UniqueJobs.Proofs.Store.Batch
import UniqueJobs.Proofs.Store.Procedures

/-!
Until when the entries last that an operation of the local store makes. An entry that is new expires
when its time to live is over; one that was there keeps its expiry or has it put off to that of a new
one. Main statements: `dates_carryOutAll` and `dates_advance`.
-/

namespace UniqueJobs

theorem laterExpiry_self (x : Option Instant) : laterExpiry x x = x := by
  cases x with
  | none => rfl
  | some t => exact congrArg some (ite_self t)

theorem laterExpiry_laterExpiry (x y : Option Instant) :
    laterExpiry (laterExpiry x y) y = laterExpiry x y := by
  cases x with
  | none => rfl
  | some a =>
    cases y with
    | none => rfl
    | some b =>
      simp only [laterExpiry]
      split
      · rw [ite_self]
      · rfl

/-- Does what is found afterwards expire at the instant, or as what was found before, or at the
later of both? -/
def Dates (expiry : Option Instant) (found found' : Option Entry) : Prop :=
  ∀ e, found' = some e → e.expiresAt = expiry ∨ ∃ e₀, found = some e₀ ∧
    (e.expiresAt = e₀.expiresAt ∨ e.expiresAt = laterExpiry e₀.expiresAt expiry)

namespace Dates

variable {expiry : Option Instant} {found found' found'' : Option Entry}

theorem refl (expiry : Option Instant) (found : Option Entry) : Dates expiry found found :=
  fun e he ↦ .inr ⟨e, he, .inl rfl⟩

theorem of_eq (h : found' = found) : Dates expiry found found' := by
  subst h
  exact refl expiry found'

theorem of_none : Dates expiry found none := nofun

theorem trans (h : Dates expiry found found') (h' : Dates expiry found' found'') :
    Dates expiry found found'' := by
  intro e he
  rcases h' e he with hx | ⟨e₁, he₁, hx⟩
  · exact .inl hx
  · rcases h e₁ he₁ with hx₁ | ⟨e₀, he₀, hx₁⟩
    · rw [hx₁, laterExpiry_self, or_self] at hx
      exact .inl hx
    · refine .inr ⟨e₀, he₀, ?_⟩
      rcases hx₁ with hx₁ | hx₁
      · rwa [hx₁] at hx
      · rw [hx₁, laterExpiry_laterExpiry, or_self] at hx
        exact .inr hx

/-- An entry that was not there before expires at the instant. -/
theorem of_new {e : Entry} (h : Dates expiry none found') (he : found' = some e) :
    e.expiresAt = expiry := by
  rcases h e he with hx | ⟨e₀, he₀, -⟩
  · exact hx
  · cases he₀

end Dates

/-- Is every time to live that a request mentions this one? -/
def Request.LivesFor (ttl : Duration) : Request → Prop
  | .setIfAbsent _ _ d | .addNames _ _ d => d = ttl
  | .get _ | .item .. | .delete _ => True

namespace Entries

variable {now : Instant} {ttl : Duration} {expiry : Option Instant}

theorem dates_joined (names : List String) (found : Option Entry) :
    Dates expiry found (joined names expiry found) := by
  intro e he
  rcases found with _ | ⟨_ | _ | set, x⟩
  · obtain rfl := Option.some.inj he
    exact .inl rfl
  · exact .inr ⟨e, he, .inl rfl⟩
  · exact .inr ⟨e, he, .inl rfl⟩
  · obtain rfl := Option.some.inj he
    exact .inr ⟨_, rfl, .inr rfl⟩

theorem dates_raised (location : String) (offset : Int64) (found : Option Entry) :
    Dates expiry found (raised location offset expiry found) := by
  intro e he
  rcases found with _ | ⟨_ | items | _, x⟩
  · obtain rfl := Option.some.inj he
    exact .inl rfl
  · exact .inr ⟨e, he, .inl rfl⟩
  · refine .inr ⟨_, rfl, .inl ?_⟩
    rw [raised_list] at he
    split at he
    · obtain rfl := Option.some.inj he
      rfl
    · split at he <;> obtain rfl := Option.some.inj he <;> rfl
  · exact .inr ⟨e, he, .inl rfl⟩

theorem dates_setIfAbsent (key value : String) (ttl : Duration) (es : Entries) (name : String) :
    Dates (deadline now ttl) (es.live? now name)
      (live? now name (setIfAbsent now key value ttl es).2) := by
  rw [live?_setIfAbsent]
  split
  · subst_vars
    intro e he
    cases hf : es.live? now name with
    | none =>
      rw [hf] at he
      obtain rfl := Option.some.inj he
      exact .inl rfl
    | some e₀ =>
      rw [hf] at he
      obtain rfl := Option.some.inj he
      exact .inr ⟨_, rfl, .inl rfl⟩
  · exact .refl _ _

theorem dates_addNames (key : String) (names : List String) (ttl : Duration) (es : Entries)
    (name : String) :
    Dates (deadline now ttl) (es.live? now name)
      (live? now name (addNames now key names ttl es).2) := by
  rw [live?_addNames]
  split
  · subst_vars
    exact dates_joined names _
  · exact .refl _ _

theorem dates_carryOut {r : Request} (hr : r.LivesFor ttl) (es : Entries) (name : String) :
    Dates (deadline now ttl) (es.live? now name) (live? now name (carryOut now r es).2) := by
  cases r with
  | setIfAbsent key value d =>
    obtain rfl : d = ttl := hr
    exact dates_setIfAbsent key value d es name
  | addNames key names d =>
    obtain rfl : d = ttl := hr
    exact dates_addNames key names d es name
  | get key => exact .of_eq (live?_getText key name es)
  | item key index => exact .of_eq (live?_getItem key index es name)
  | delete keys =>
    change Dates _ _ (live? now name (delete now keys es).2)
    rw [live?_delete]
    split
    · exact .of_none
    · exact .refl _ _

theorem dates_carryOutAll {l : List Request} (hl : ∀ r ∈ l, r.LivesFor ttl) (es : Entries)
    (name : String) :
    Dates (deadline now ttl) (es.live? now name) (live? now name (carryOutAll now l es).2) :=
  carryOutAll_induct (P := fun es es' ↦
      Dates (deadline now ttl) (es.live? now name) (live? now name es'))
    (fun _ ↦ .refl _ _) (fun h h' ↦ h.trans h') (fun r hr es ↦ dates_carryOut (hl r hr) es name) es

/-- An advance reads the time to live from a text, and does nothing where there is none to read. -/
theorem dates_advance {list configs : String} (hne : list ≠ configs)
    (location offset config text : String) {millis : Nat}
    (htext : ∀ n, Text.readNat 10 (UInt64.size - 1) text.toList = .ok n → n = millis)
    (es : Entries) (name : String) :
    Dates (deadline now (.ofMillis millis)) (es.live? now name)
      (live? now name (advance now [list, configs] [location, offset, text, config] es).2) := by
  rcases @live?_advance now _ _ hne location offset text config es with
    hsame | ⟨o, n, hread, hlive⟩
  · exact .of_eq (hsame name)
  obtain rfl : n = millis := htext n hread
  rw [hlive]
  split
  · subst_vars
    exact dates_raised location o _
  · split
    · subst_vars
      exact dates_joined [config] _
    · exact .refl _ _

end Entries

end UniqueJobs
