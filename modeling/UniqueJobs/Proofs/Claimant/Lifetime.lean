import UniqueJobs.Proofs.Claimant.Contact
import UniqueJobs.Proofs.Store.Lifetime
import UniqueJobs.Proofs.Text.Numeral

/-!
Until when the records last that a contact makes. The time to live of a furthest position goes to the
store in whole milliseconds, as a text.
-/

namespace UniqueJobs

open Entries

theorem Claimant.claimRequests_livesFor (c : Claimant) (window : Duration) :
    ∀ r ∈ c.claimRequests window, r.LivesFor window := by
  intro r hr
  simp only [claimRequests, claimWrites_eq, claimReads_eq, List.mem_append, List.mem_map] at hr
  rcases hr with (⟨p, -, rfl⟩ | hr) | ⟨name, -, rfl⟩
  · rfl
  · split at hr
    · cases hr
    · rw [List.mem_singleton] at hr
      subst hr
      rfl
  · trivial

namespace Contact

variable {c : Claimant} {ttl : Duration}

/-- Is the time to live this one, if the contact writes at all? -/
def LivesFor (c : Claimant) (ttl : Duration) : Contact → Prop
  | claim window => window = ttl
  | setFlag d => d = ttl
  | advance .. => .ofMillis c.settings.latestTtl.millis = ttl
  | readLatest | readFlag | release => True

theorem dates {contact : Contact} (h : contact.LivesFor c ttl) (now : Instant) (es : Entries)
    (name : String) :
    Dates (deadline now ttl) (es.live? now name) (live? now name (contact.effect c now es)) := by
  cases contact with
  | claim window =>
    obtain rfl : window = ttl := h
    exact dates_carryOutAll (c.claimRequests_livesFor window) es name
  | setFlag d =>
    obtain rfl : d = ttl := h
    exact dates_setIfAbsent c.key.flag "1" d es name
  | advance config location offset =>
    obtain rfl : Duration.ofMillis c.settings.latestTtl.millis = ttl := h
    refine dates_advance (Record.latest_ne_configs c.key config) location _ config _ ?_ es name
    intro n hn
    by_cases hle : c.settings.latestTtl.millis ≤ UInt64.size - 1
    · exact Except.ok.inj (hn.symm.trans (Text.readNat_repr hle))
    · cases hn.symm.trans (Text.readNat_repr_of_lt (Nat.lt_of_not_le hle))
  | readLatest => exact .of_eq (live?_carryOutAll_of_reads c.latestReads_reads es name)
  | readFlag => exact .of_eq (live?_getText c.key.flag name es)
  | release =>
    change Dates _ _ (live? now name
      (Entries.release now [c.key.text, c.key.flag, c.key.configs] c.locations.keys es).2)
    rw [live?_release]
    split
    · exact .refl _ _
    · split
      · exact .of_none
      · exact .refl _ _

end Contact

end UniqueJobs
