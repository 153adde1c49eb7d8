import UniqueJobs.Proofs.Claimant.Lifetime

/-!
By when the records of a key are gone. Whatever a claimant asks of the store, a record that it makes
lives for a time that it was told, and a set or a list that was there is put off to such a time at
most. Main statements: `GoneBy.effect` and `GoneBy.eq_none`.
-/

namespace UniqueJobs

open Entries

/-- Does an expiry fall on the bound or before? What never expires does not. -/
def DueBy (bound : Nat) (x : Option Instant) : Prop :=
  ∃ t, x = some t ∧ t.nanos ≤ bound

def EndsBy (bound : Nat) (found : Option Entry) : Prop :=
  ∀ e, found = some e → DueBy bound e.expiresAt

theorem Duration.nanos_ofMillis_millis_le (d : Duration) : (ofMillis d.millis).nanos ≤ d.nanos := by
  rw [ofMillis, nanos_ofNanos, millis]
  omega

variable {bound : Nat} {now : Instant} {longest : Duration}

theorem Instant.after?_of_lt {t : Instant} {d : Duration} (h : t.nanos + d.nanos < limit) :
    t.after? d = some ⟨t.nanos + d.nanos⟩ := if_pos h

/-- A time to live that is no longer than the longest is over by then. -/
theorem dueBy_deadline {ttl : Duration} (httl : ttl.nanos ≤ longest.nanos)
    (hbound : now.nanos + max longest.nanos minTtl.nanos ≤ bound) (hlimit : bound < Instant.limit) :
    DueBy bound (deadline now ttl) := by
  cases h : deadline now ttl with
  | some x =>
    have hx := nanos_of_deadline h
    exact ⟨x, rfl, by omega⟩
  | none =>
    rw [deadline, Instant.after?_of_lt (by split <;> omega)] at h
    cases h

theorem DueBy.laterExpiry {x y : Option Instant} (hx : DueBy bound x) (hy : DueBy bound y) :
    DueBy bound (laterExpiry x y) := by
  obtain ⟨a, rfl, ha⟩ := hx
  obtain ⟨b, rfl, hb⟩ := hy
  refine ⟨_, rfl, ?_⟩
  split <;> assumption

/-- What is put off to an expiry that falls on the bound or before does not leave the bound. -/
theorem EndsBy.dates {found found' : Option Entry} {expiry : Option Instant}
    (h : EndsBy bound found) (hexpiry : DueBy bound expiry) (hdates : Dates expiry found found') :
    EndsBy bound found' := by
  intro e he
  rcases hdates e he with hx | ⟨e₀, he₀, hx | hx⟩
  · rw [hx]
    exact hexpiry
  · rw [hx]
    exact h e₀ he₀
  · rw [hx]
    exact (h e₀ he₀).laterExpiry hexpiry

/-- Every live record of the key expires by the bound. -/
def GoneBy (bound : Nat) (k : JobKey) (now : Instant) (es : Entries) : Prop :=
  ∀ r : Record, EndsBy bound (es.live? now (r.name k))

/-- Does a contact write nothing that is to live longer? -/
def Contact.Brief (longest : Duration) (c : Claimant) : Contact → Prop
  | claim window => window.nanos ≤ longest.nanos
  | setFlag ttl => ttl.nanos ≤ longest.nanos
  | advance .. => c.settings.latestTtl.nanos ≤ longest.nanos
  | readLatest | readFlag | release => True

/-- What a contact makes is to live for one time, which is no longer than the longest. -/
theorem Contact.Brief.exists_livesFor {c : Claimant} {contact : Contact}
    (h : contact.Brief longest c) :
    ∃ ttl : Duration, contact.LivesFor c ttl ∧ ttl.nanos ≤ longest.nanos := by
  cases contact with
  | claim window => exact ⟨window, rfl, h⟩
  | setFlag ttl => exact ⟨ttl, rfl, h⟩
  | advance => exact ⟨_, rfl, Nat.le_trans (Duration.nanos_ofMillis_millis_le _) h⟩
  | readLatest | readFlag | release => exact ⟨longest, trivial, Nat.le_refl _⟩

namespace GoneBy

variable {k : JobKey} {es : Entries}

theorem empty (bound : Nat) (k : JobKey) (now : Instant) : GoneBy bound k now .empty := by
  intro r e he
  cases he

theorem wait {t : Instant} (h : GoneBy bound k now es) (ht : now.nanos ≤ t.nanos) :
    GoneBy bound k t es := by
  intro r e he
  rw [live?_of_le ht, Option.filter_eq_some_iff] at he
  exact h r e he.1

theorem eq_none (h : GoneBy bound k now es) (hnow : bound ≤ now.nanos) (r : Record) :
    es.live? now (r.name k) = none := by
  cases he : es.live? now (r.name k) with
  | none => rfl
  | some e =>
    obtain ⟨x, hx, hle⟩ := h r e he
    have hlive := isLive_of_live? he
    simp only [Entry.isLive, hx, decide_eq_true_eq] at hlive
    omega

theorem effect {c : Claimant} {contact : Contact} (h : GoneBy bound c.key now es)
    (hcontact : contact.Brief longest c)
    (hbound : now.nanos + max longest.nanos minTtl.nanos ≤ bound) (hlimit : bound < Instant.limit) :
    GoneBy bound c.key now (contact.effect c now es) := by
  obtain ⟨ttl, hlives, httl⟩ := hcontact.exists_livesFor
  intro r
  exact (h r).dates (dueBy_deadline httl hbound hlimit) (contact.dates hlives now es _)

end GoneBy

end UniqueJobs
