import UniqueJobs.Proofs.Claimant.Contact
import UniqueJobs.Proofs.Claimant.Replies
import UniqueJobs.Proofs.Lsn
import UniqueJobs.Proofs.Store.Furthest

/-!
The furthest positions under a key. `exists_latest` is what a claimant reads of them, and `Furthest`
what a list is that was made by offers which were all measured from one baseline: one contact keeps
it (`Furthest.effect`), and so its location is no less than any that was offered.
-/

namespace UniqueJobs

open Entries

namespace Entries

variable {now : Instant}

/-- The location that a list of a furthest position begins with. -/
def furthest? (now : Instant) (name : String) (es : Entries) : Option String :=
  match es.live? now name with
  | some ⟨.list items, _⟩ => itemAt? items 0
  | _ => none

theorem furthest?_of_position {es : Entries} {name location : String} {offset : Int64}
    {x : Option Instant} (h : es.live? now name = some (.position location offset x)) :
    es.furthest? now name = some location := by
  rw [furthest?, h]
  rfl

end Entries

namespace Claimant

variable {now : Instant}

def latestReads (c : Claimant) : List Request :=
  c.locations.keys.map fun config ↦ .item (c.key.latest config) 0

/-- Replies to the reads give every config with a position its location. -/
theorem pairValues_of_latestReads {c : Claimant} {es : Entries} {replies : List Reply}
    (h : (carryOutAll now c.latestReads es).1 = .ok replies) :
    ∃ d, pairValues c.locations.keys replies = .ok d ∧ ∀ config, d.get? config =
      if c.locations.contains config = true then es.furthest? now (c.key.latest config)
      else none := by
  have hreplies := replies_of_reads c.latestReads_reads h
  rw [List.map_map] at hreplies
  obtain ⟨d, hd, hget⟩ :=
    readValues_map (fun config ↦ es.furthest? now (c.key.latest config)) c.locations.keys
  refine ⟨d, ?_, fun config ↦ ?_⟩
  · rw [hreplies, pairValues_eq_readValues, List.length_map, List.take_length]
    exact hd
  · rw [hget]
    simp only [Dictionary.mem_keys_iff]

theorem exists_latest {c : Claimant} {es : Entries} (h : Sound c.key now es) :
    ∃ replies d, (carryOutAll now c.latestReads es).1 = .ok replies ∧
      pairValues c.locations.keys replies = .ok d ∧ ∀ config, d.get? config =
        if c.locations.contains config = true then es.furthest? now (c.key.latest config)
        else none := by
  have hreadable : ∀ r ∈ c.latestReads, Readable now es r := by
    intro r hr
    obtain ⟨config, -, rfl⟩ := List.mem_map.mp hr
    exact readable_of_allFit h.fit (r := .latest config) (by simp)
  have hreplies := carryOutAll_of_readable hreadable
  obtain ⟨d, hd⟩ := pairValues_of_latestReads hreplies
  exact ⟨_, d, hreplies, hd⟩

end Claimant

/-- What a list holds to which the locations were offered, each measured from one baseline. -/
inductive Furthest (b : String) : List String → Option Entry → Prop
  | absent : Furthest b [] none
  | kept {measured : List (String × Int64)} {p : String × Int64} {x : Option Instant}
      (hmeasured : ∀ q ∈ measured, Lsn.distance q.1 b = .ok q.2)
      (hfirst : FirstGreatest Prod.snd measured p) :
      Furthest b (measured.map Prod.fst) (some (.position p.1 p.2 x))

namespace Furthest

variable {b : String} {locations : List String} {found : Option Entry}

theorem raised (h : Furthest b locations found) {location : String} {offset : Int64}
    (hdistance : Lsn.distance location b = .ok offset) (expiry : Option Instant) :
    Furthest b (locations ++ [location]) (Entries.raised location offset expiry found) := by
  cases h with
  | absent =>
    have hone : ∀ q ∈ [(location, offset)], Lsn.distance q.1 b = .ok q.2 := by
      intro q hq
      rw [List.mem_singleton.mp hq]
      exact hdistance
    exact .kept hone (.singleton _ _)
  | @kept measured p x hmeasured hfirst =>
    have hall : ∀ q ∈ measured ++ [(location, offset)], Lsn.distance q.1 b = .ok q.2 := by
      intro q hq
      rcases List.mem_append.mp hq with hq | hq
      · exact hmeasured q hq
      · rw [List.mem_singleton.mp hq]
        exact hdistance
    have hnext := hfirst.concat (location, offset)
    have hmap : measured.map Prod.fst ++ [location] =
        (measured ++ [(location, offset)]).map Prod.fst := by simp
    rw [hmap, raised_position]
    split
    · rename_i hlt
      rw [if_pos hlt] at hnext
      exact .kept hall hnext
    · rename_i hlt
      rw [if_neg hlt] at hnext
      exact .kept hall hnext

/-- The location is one of those offered, and no other is further. -/
theorem exists_location {e : Entry} (h : Furthest b locations (some e)) :
    ∃ location offset x, e = .position location offset x ∧ location ∈ locations ∧
      ∀ other ∈ locations, ∃ p q, Lsn.parse location = .ok p ∧ Lsn.parse other = .ok q ∧
        q ≤ p := by
  generalize hfound : some e = found at h
  cases h with
  | absent => cases hfound
  | @kept measured p x hmeasured hfirst =>
    obtain rfl := Option.some.inj hfound
    refine ⟨p.1, p.2, x, rfl, List.mem_map_of_mem hfirst.mem, ?_⟩
    intro other hother
    obtain ⟨q, hq, rfl⟩ := List.mem_map.mp hother
    exact Lsn.parse_le_of_distance (hmeasured p hfirst.mem) (hmeasured q hq) (hfirst.le hq)

end Furthest

namespace Contact

variable {c : Claimant} {now : Instant} {es : Entries} {config : String}

/-- Nothing but an offer for its config changes a furthest position, unless it is released. -/
theorem live?_latest {contact : Contact} (hrelease : contact ≠ .release)
    (hadvance : ∀ location offset, contact ≠ .advance config location offset) :
    live? now (c.key.latest config) (contact.effect c now es) =
      es.live? now (c.key.latest config) := by
  cases contact with
  | claim window =>
    have hclaim := @Claimant.live?_claim now c window es (.latest config)
    rw [Claimant.claimed_of_ne_configs (by simp)] at hclaim
    exact hclaim.trans Option.or_none
  | advance other location offset =>
    have hother : Record.latest other ≠ .latest config := by
      intro h
      cases h
      exact hadvance location offset rfl
    have hlist : c.key.latest other ≠ c.key.latest config := Record.name_ne c.key hother
    have hset : c.key.configs ≠ c.key.latest config := (Record.latest_ne_configs c.key config).symm
    have hne := Record.latest_ne_configs c.key other
    rcases @live?_advance now _ _ hne location (toString offset.toInt)
      (toString c.settings.latestTtl.millis) other es with hsame | ⟨o, millis, -, hlive⟩
    · exact hsame _
    · exact (hlive _).trans (by rw [if_neg hlist, if_neg hset])
  | readLatest => exact live?_carryOutAll_of_reads c.latestReads_reads es _
  | setFlag ttl =>
    have hne : c.key.flag ≠ c.key.latest config := by
      have h : Record.flag ≠ .latest config := by simp
      exact Record.name_ne c.key h
    exact (live?_setIfAbsent _ _ _ es _).trans (if_neg hne)
  | readFlag => exact live?_getText c.key.flag _ es
  | release => exact absurd rfl hrelease

theorem live?_latest_release (h : live? now (c.key.latest config)
      (Contact.release.effect c now es) ≠ none) :
    live? now (c.key.latest config) (Contact.release.effect c now es) =
      es.live? now (c.key.latest config) := by
  change live? now _
    (Entries.release now [c.key.text, c.key.flag, c.key.configs] _ es).2 ≠ none at h
  change live? now _ (Entries.release now [c.key.text, c.key.flag, c.key.configs] _ es).2 = _
  cases hset : registered (es.live? now c.key.configs) with
  | none => exact (release_of_registered_eq_none hset).2 _
  | some set =>
    rw [(release_of_registered_eq_some c.key.text c.key.flag _ hset).2] at h ⊢
    split
    · rename_i hdoomed
      rw [if_pos hdoomed] at h
      exact absurd rfl h
    · rfl

theorem addNames_of_raise {k : JobKey} (h : Sound k now es) {location : String} {offset : Int64}
    {ttl : Duration} {r : Except StoreError Unit} {es₁ : Entries}
    (hr : raise now (k.latest config) location offset ttl es = (r, es₁)) (names : List String) :
    ∃ n, (addNames now k.configs names ttl es₁).1 = .ok n := by
  have hsame := @live?_raise now (k.latest config) location offset ttl es k.configs
  rw [if_neg (Record.latest_ne_configs k config), hr] at hsame
  rw [addNames_fst, hsame]
  rcases hl : es.live? now k.configs with _ | ⟨_ | _ | set, x⟩
  · exact ⟨_, rfl⟩
  · exact False.elim (h.fit .configs _ hl)
  · exact False.elim (h.fit .configs _ hl)
  · exact ⟨_, rfl⟩

theorem raise_fst_of_sound {k : JobKey} (h : Sound k now es) (config location : String)
    (offset : Int64) (ttl : Duration) :
    (raise now (k.latest config) location offset ttl es).1 = .ok () := by
  simp only [raise, get?_purge]
  rcases hl : es.live? now (k.latest config) with _ | ⟨_ | items | _, x⟩
  · rfl
  · exact False.elim (h.fit (.latest config) _ hl)
  · obtain ⟨before, current, rfl⟩ := h.fit (.latest config) _ hl
    simp only [List.getLast?_cons_cons, List.getLast?_singleton, Option.bind_some,
      Text.readInt64_toString, Except.toOption]
    split <;> rfl
  · exact False.elim (h.fit (.latest config) _ hl)

/-- On a sound store an offer fails only where the time it is to last is too long to be read. -/
theorem advance_fst_of_sound {k : JobKey} (h : Sound k now es) (config location : String)
    (offset : Int64) (millis : Nat) :
    (Entries.advance now [k.latest config, k.configs]
        [location, toString offset.toInt, toString millis, config] es).1 =
      if millis < UInt64.size then .ok ()
      else .error (.script (.ttl (toString millis) .tooLarge)) := by
  have htext : (toString millis).toList = millis.repr.toList := rfl
  by_cases hsize : millis < UInt64.size
  · have hread := Text.readNat_repr (Nat.le_sub_one_of_lt hsize)
    have hraise := raise_fst_of_sound h config location offset (.ofMillis millis)
    rcases hr : raise now (k.latest config) location offset (.ofMillis millis) es with ⟨r, es₁⟩
    rw [hr] at hraise
    obtain rfl := hraise
    obtain ⟨n, hn⟩ := addNames_of_raise h hr [config]
    rw [if_pos hsize]
    simp only [Entries.advance, Text.readInt64_toString, htext, hread, hr, hn, Except.map]
  · have hlt : UInt64.size - 1 < millis := by
      have : 0 < UInt64.size := by decide
      omega
    have hread := Text.readNat_repr_of_lt hlt
    rw [if_neg hsize]
    simp only [Entries.advance, Text.readInt64_toString, htext, hread]

/-- What an offer makes of the list of its config, and that there is no failure after it has. -/
theorem live?_latest_advance (h : Sound c.key now es) (location : String) (offset : Int64) :
    let offered := runProcedure now .advance [c.key.latest config, c.key.configs]
      [location, toString offset.toInt, toString c.settings.latestTtl.millis, config] es
    (∃ x, offered.1 = .ok () ∧ live? now (c.key.latest config) offered.2 =
      Entries.raised location offset x (es.live? now (c.key.latest config))) ∨
    ∃ e, offered.1 = .error e ∧ live? now (c.key.latest config) offered.2 =
      es.live? now (c.key.latest config) := by
  intro offered
  cases httl : Text.readNat 10 (UInt64.size - 1) (toString c.settings.latestTtl.millis).toList with
  | error f =>
    refine .inr ⟨.script (.ttl (toString c.settings.latestTtl.millis) f), ?_⟩
    simp only [offered, runProcedure, Entries.advance, Text.readInt64_toString, httl, and_self]
  | ok millis =>
    have hlist := @live?_advance_list now (c.key.latest config) _ _ offset millis
      (Text.readInt64_toString offset) httl c.key.configs location config es
    rcases hr : raise now (c.key.latest config) location offset (.ofMillis millis) es with
      ⟨e | u, es₁⟩
    · have hsame := live?_raise_of_error (congrArg Prod.fst hr) (c.key.latest config)
      rw [hr] at hsame
      refine .inr ⟨e, ?_⟩
      simp only [offered, runProcedure, Entries.advance, Text.readInt64_toString, httl, hr, hsame,
        and_self]
    · obtain ⟨n, hn⟩ := addNames_of_raise h hr [config]
      refine .inl ⟨_, ?_, hlist⟩
      simp only [offered, runProcedure, Entries.advance, Text.readInt64_toString, httl, hr, hn,
        Except.map]

end Contact

end UniqueJobs
