import UniqueJobs.Proofs.Claimant.Claim

/-!
The six ways in which a claimant touches the store, and the invariant that they keep: every live
record holds what it may, and the config of every position record is in the set of configs, which
lasts at least as long as the record. Main statements: `Sound.effect` and `Sound.wait`.
-/

namespace UniqueJobs

open Entries

/-- What a claimant asks of the store in one call. -/
inductive Contact
  | claim (window : Duration)
  | advance (config location : String) (offset : Int64)
  | readLatest
  | setFlag (ttl : Duration)
  | readFlag
  | release
  deriving DecidableEq

/-- What the entries become when the call gets through. -/
def Contact.effect (c : Claimant) (now : Instant) (es : Entries) : Contact → Entries
  | claim window => (carryOutAll now (c.claimRequests window) es).2
  | advance config location offset =>
    (runProcedure now .advance [c.key.latest config, c.key.configs]
      [location, toString offset.toInt, toString c.settings.latestTtl.millis, config] es).2
  | readLatest =>
    (carryOutAll now (c.locations.keys.map fun config ↦ .item (c.key.latest config) 0) es).2
  | setFlag ttl => (setIfAbsent now c.key.flag "1" ttl es).2
  | readFlag => (getText now c.key.flag es).2
  | release =>
    (runProcedure now .release [c.key.text, c.key.flag, c.key.configs] c.locations.keys es).2

theorem Claimant.latestReads_reads (c : Claimant) :
    ∀ r ∈ c.locations.keys.map fun config ↦ Request.item (c.key.latest config) 0,
      r.reads = true := by
  intro r hr
  obtain ⟨config, -, rfl⟩ := List.mem_map.mp hr
  rfl

/-- Does what expires at `x` last at least as long as what expires at `y`? -/
def Outlasts (x y : Option Instant) : Prop :=
  ∀ a, x = some a → ∃ b, y = some b ∧ b.nanos ≤ a.nanos

namespace Outlasts

theorem refl (x : Option Instant) : Outlasts x x := fun a h ↦ ⟨a, h, Nat.le_refl _⟩

theorem trans {x y z : Option Instant} (h : Outlasts x y) (h' : Outlasts y z) : Outlasts x z := by
  intro a ha
  obtain ⟨b, hb, hab⟩ := h a ha
  obtain ⟨d, hd, hbd⟩ := h' b hb
  exact ⟨d, hd, Nat.le_trans hbd hab⟩

theorem of_laterExpiry {x y z : Option Instant} (h : laterExpiry x y = z) :
    Outlasts z x ∧ Outlasts z y := by
  subst h
  rcases x with _ | x
  · constructor <;> intro a ha <;> cases ha
  rcases y with _ | y
  · constructor <;> intro a ha <;> cases ha
  constructor
  · intro a ha
    obtain rfl := Option.some.inj ha
    refine ⟨x, rfl, ?_⟩
    split <;> omega
  · intro a ha
    obtain rfl := Option.some.inj ha
    refine ⟨y, rfl, ?_⟩
    split <;> omega

theorem isLive {content content' : Content} {x y : Option Instant} {t : Instant}
    (h : Outlasts x y) (hy : Entry.isLive ⟨content, y⟩ t = true) :
    Entry.isLive ⟨content', x⟩ t = true := by
  cases x with
  | none => rfl
  | some a =>
    obtain ⟨b, rfl, hab⟩ := h a rfl
    simp only [Entry.isLive, decide_eq_true_eq] at hy ⊢
    omega

end Outlasts

def Record.config? : Record → Option String
  | baseline config | latest config => some config
  | _ => none

/-- Is a config in a set that lasts as long as an expiry? -/
def Tracks (config : String) (expiry : Option Instant) (found : Option Entry) : Prop :=
  ∃ set x, found = some ⟨.names set, x⟩ ∧ set.contains config = true ∧ Outlasts x expiry

/-- Live records hold what they may, and a release will find the configs of all of them. -/
structure Sound (k : JobKey) (now : Instant) (es : Entries) : Prop where
  fit : Record.AllFit k now es
  tracked : ∀ (r : Record) (config : String) (e : Entry), r.config? = some config →
    es.live? now (r.name k) = some e → Tracks config e.expiresAt (es.live? now k.configs)

theorem Tracks.joined {config : String} {expiry : Option Instant} {found : Option Entry}
    (h : Tracks config expiry found) (names : List String) (later : Option Instant) :
    Tracks config expiry (joined names later found) := by
  obtain ⟨set, x, rfl, hmem, hx⟩ := h
  have hjoined := (NameSet.contains_addNew set names config).mpr (.inr hmem)
  have hlater := (Outlasts.of_laterExpiry (x := x) (y := later) rfl).1
  exact ⟨_, _, rfl, hjoined, hlater.trans hx⟩

theorem tracks_joined_of_mem {config : String} {names : List String} (hmem : config ∈ names)
    {found : Option Entry} (hfound : ∀ e, found = some e → Record.configs.Fits e.content)
    (expiry : Option Instant) : Tracks config expiry (joined names expiry found) := by
  rcases found with _ | ⟨_ | _ | set, x⟩
  · exact ⟨_, _, rfl, (NameSet.contains_ofNames names config).mpr hmem, .refl _⟩
  · exact False.elim (hfound _ rfl)
  · exact False.elim (hfound _ rfl)
  · have hjoined := (NameSet.contains_addNew set names config).mpr (.inl hmem)
    have hlater := (Outlasts.of_laterExpiry (x := x) (y := expiry) rfl).2
    exact ⟨_, _, rfl, hjoined, hlater⟩

theorem fits_joined {names : List String} (hne : names ≠ []) {found : Option Entry}
    (hfound : ∀ e, found = some e → Record.configs.Fits e.content) (expiry : Option Instant)
    {e : Entry} (he : joined names expiry found = some e) : Record.configs.Fits e.content := by
  obtain ⟨name, hname⟩ := List.exists_mem_of_ne_nil names hne
  obtain ⟨set, x, hset, hmem, -⟩ := tracks_joined_of_mem hname hfound expiry
  rw [hset] at he
  obtain rfl := Option.some.inj he
  exact ⟨name, hmem⟩

namespace Sound

variable {k : JobKey} {now : Instant} {es : Entries}

theorem empty (k : JobKey) (now : Instant) : Sound k now .empty where
  fit r e h := by cases h
  tracked r config e _ h := by cases h

/-- The invariant does not wear out: a set is there as long as what it tracks. -/
theorem wait {t : Instant} (h : Sound k now es) (ht : now.nanos ≤ t.nanos) : Sound k t es where
  fit r e he := by
    rw [live?_of_le ht, Option.filter_eq_some_iff] at he
    exact h.fit r e he.1
  tracked r config e hr he := by
    rw [live?_of_le ht, Option.filter_eq_some_iff] at he
    obtain ⟨set, x, hset, hmem, hx⟩ := h.tracked r config e hr he.1
    refine ⟨set, x, ?_, hmem, hx⟩
    rw [live?_of_le ht, hset, Option.filter_eq_some_iff]
    exact ⟨rfl, hx.isLive he.2⟩

theorem congr {es' : Entries} (h : Sound k now es)
    (hlive : ∀ r : Record, live? now (r.name k) es' = es.live? now (r.name k)) :
    Sound k now es' where
  fit r e he := h.fit r e (by rwa [hlive] at he)
  tracked r config e hr he := by
    have hconfigs := hlive .configs
    simp only [Record.name] at hconfigs
    rw [hconfigs]
    exact h.tracked r config e hr (by rwa [hlive] at he)

variable {c : Claimant}

theorem fits_claimed (h : Sound c.key now es) {expiry : Option Instant} {r : Record} {e : Entry}
    (he : c.claimed expiry r (es.live? now (r.name c.key)) = some e) : r.Fits e.content := by
  by_cases hr : r = .configs
  · subst hr
    rw [Claimant.claimed_configs] at he
    by_cases hempty : c.locations.isEmpty = true
    · rw [if_pos hempty] at he
      exact h.fit .configs e he
    · rw [if_neg hempty] at he
      have hne : c.locations.keys ≠ [] := by
        simpa [Dictionary.isEmpty, Dictionary.keys] using hempty
      exact fits_joined hne (h.fit .configs) _ he
  · rw [Claimant.claimed_of_ne_configs hr, Option.or_eq_some_iff] at he
    rcases he with he | ⟨-, he⟩
    · exact h.fit r e he
    · obtain ⟨text, htext, rfl⟩ := Option.map_eq_some_iff.mp he
      cases r with
      | holder | baseline => trivial
      | configs => exact absurd rfl hr
      | flag | latest => cases htext

/-- A claim writes a baseline and the config of it for the same time. -/
theorem tracks_claimed (h : Sound c.key now es) {expiry : Option Instant} {r : Record}
    {config : String} {e : Entry} (hr : r.config? = some config)
    (he : c.claimed expiry r (es.live? now (r.name c.key)) = some e) :
    Tracks config e.expiresAt (c.claimed expiry .configs (es.live? now c.key.configs)) := by
  have hne : r ≠ .configs := by
    intro heq
    subst heq
    cases hr
  rw [Claimant.claimed_of_ne_configs hne, Option.or_eq_some_iff] at he
  rw [Claimant.claimed_configs]
  rcases he with he | ⟨-, he⟩
  · have hold := h.tracked r config e hr he
    split
    · exact hold
    · exact hold.joined _ _
  · obtain ⟨text, htext, rfl⟩ := Option.map_eq_some_iff.mp he
    cases r with
    | holder | flag | configs => cases hr
    | latest => cases htext
    | baseline =>
      cases hr
      have hmem : config ∈ c.locations.keys := by
        rw [Dictionary.mem_keys_iff, Dictionary.contains]
        exact Option.isSome_iff_exists.mpr ⟨text, htext⟩
      have hempty : ¬ c.locations.isEmpty = true := by
        intro hempty
        have hnil : c.locations.entries = [] := by simpa [Dictionary.isEmpty] using hempty
        simp [Dictionary.keys, hnil] at hmem
      rw [if_neg hempty]
      exact tracks_joined_of_mem hmem (h.fit .configs) _

theorem claim (h : Sound c.key now es) (window : Duration) :
    Sound c.key now (carryOutAll now (c.claimRequests window) es).2 where
  fit r e he := by
    rw [Claimant.live?_claim] at he
    exact h.fits_claimed he
  tracked r config e hr he := by
    have hconfigs := @Claimant.live?_claim now c window es .configs
    simp only [Record.name] at hconfigs
    rw [Claimant.live?_claim] at he
    rw [hconfigs]
    exact h.tracks_claimed hr he

theorem of_raised {location : String} {offset : Int64} {expiry : Option Instant}
    {found : Option Entry} {config : String} {e : Entry}
    (hfound : ∀ e, found = some e → (Record.latest config).Fits e.content)
    (he : raised location offset expiry found = some e) :
    (Record.latest config).Fits e.content ∧
      (e.expiresAt = expiry ∨ ∃ e₀, found = some e₀ ∧ e.expiresAt = e₀.expiresAt) := by
  rcases found with _ | ⟨_ | items | _, x⟩
  · obtain rfl := Option.some.inj he
    exact ⟨⟨location, offset, rfl⟩, .inl rfl⟩
  · exact False.elim (hfound _ rfl)
  · rw [raised_list] at he
    split at he
    · obtain rfl := Option.some.inj he
      exact ⟨hfound _ rfl, .inr ⟨_, rfl, rfl⟩⟩
    · split at he <;> obtain rfl := Option.some.inj he
      · exact ⟨⟨location, offset, rfl⟩, .inr ⟨_, rfl, rfl⟩⟩
      · exact ⟨hfound _ rfl, .inr ⟨_, rfl, rfl⟩⟩
  · exact False.elim (hfound _ rfl)

/-- The list of a config that is made or raised has its config join the set for the same time. -/
theorem advance (h : Sound k now es) (config location offset ttl : String) :
    Sound k now (Entries.advance now [k.latest config, k.configs] [location, offset, ttl, config]
      es).2 := by
  have hne := Record.latest_ne_configs k config
  rcases @live?_advance now _ _ hne location offset ttl config es with
    hsame | ⟨o, millis, -, hlive⟩
  · exact h.congr fun r ↦ hsame _
  have hlatest : live? now ((Record.latest config).name k) (Entries.advance now
      [k.latest config, k.configs] [location, offset, ttl, config] es).2 =
        raised location o (deadline now (.ofMillis millis)) (es.live? now (k.latest config)) := by
    rw [hlive]
    exact if_pos rfl
  have hconfigs : live? now k.configs (Entries.advance now [k.latest config, k.configs]
      [location, offset, ttl, config] es).2 =
        joined [config] (deadline now (.ofMillis millis)) (es.live? now k.configs) := by
    rw [hlive, if_neg hne, if_pos rfl]
  have hother : ∀ r : Record, r ≠ .latest config → r ≠ .configs →
      live? now (r.name k) (Entries.advance now [k.latest config, k.configs]
        [location, offset, ttl, config] es).2 = es.live? now (r.name k) := by
    intro r hr hr'
    have hlist : k.latest config ≠ r.name k := (Record.name_ne k hr).symm
    have hset : k.configs ≠ r.name k := (Record.name_ne k hr').symm
    rw [hlive, if_neg hlist, if_neg hset]
  constructor
  · intro r e he
    by_cases hr : r = .latest config
    · subst hr
      rw [hlatest] at he
      exact (of_raised (h.fit (.latest config)) he).1
    by_cases hr' : r = .configs
    · subst hr'
      change live? now k.configs _ = some e at he
      rw [hconfigs] at he
      exact fits_joined (by simp) (h.fit .configs) _ he
    · rw [hother r hr hr'] at he
      exact h.fit r e he
  · intro r other e hr he
    rw [hconfigs]
    by_cases hlist : r = .latest config
    · subst hlist
      cases hr
      rw [hlatest] at he
      rcases (of_raised (h.fit (.latest config)) he).2 with hx | ⟨e₀, he₀, hx⟩
      · rw [hx]
        exact tracks_joined_of_mem (by simp) (h.fit .configs) _
      · rw [hx]
        exact (h.tracked (.latest config) config e₀ rfl he₀).joined _ _
    · have hset : r ≠ .configs := by
        intro heq
        subst heq
        cases hr
      rw [hother r hlist hset] at he
      exact (h.tracked r other e hr he).joined _ _

theorem setFlag (h : Sound k now es) (ttl : Duration) :
    Sound k now (setIfAbsent now k.flag "1" ttl es).2 := by
  have hother : ∀ r : Record, r ≠ .flag →
      live? now (r.name k) (setIfAbsent now k.flag "1" ttl es).2 = es.live? now (r.name k) := by
    intro r hr
    have hne : k.flag ≠ r.name k := (Record.name_ne k hr).symm
    rw [live?_setIfAbsent, if_neg hne]
  constructor
  · intro r e he
    by_cases hr : r = .flag
    · subst hr
      change live? now k.flag _ = some e at he
      rw [live?_setIfAbsent, if_pos rfl, Option.some.injEq] at he
      cases hf : es.live? now k.flag with
      | none =>
        rw [hf] at he
        subst he
        trivial
      | some e₀ =>
        rw [hf] at he
        subst he
        exact h.fit .flag e₀ hf
    · rw [hother r hr] at he
      exact h.fit r e he
  · intro r config e hr he
    have hr' : r ≠ .flag := by
      intro heq
      subst heq
      cases hr
    have hconfigs := hother .configs (by simp)
    simp only [Record.name] at hconfigs
    rw [hother r hr'] at he
    rw [hconfigs]
    exact h.tracked r config e hr he

theorem exists_registered (h : Sound k now es) :
    ∃ set, registered (es.live? now k.configs) = some set ∧
      ∀ (r : Record) (config : String) (e : Entry), r.config? = some config →
        es.live? now (r.name k) = some e → set.contains config = true := by
  cases hl : es.live? now k.configs with
  | none =>
    refine ⟨.empty, rfl, ?_⟩
    intro r config e hr he
    obtain ⟨set, x, hset, -⟩ := h.tracked r config e hr he
    rw [hl] at hset
    cases hset
  | some e₀ =>
    obtain ⟨_ | _ | set, x₀⟩ := e₀
    · exact False.elim (h.fit .configs _ hl)
    · exact False.elim (h.fit .configs _ hl)
    · refine ⟨set, rfl, ?_⟩
      intro r config e hr he
      obtain ⟨set', x, hset, hmem, -⟩ := h.tracked r config e hr he
      rw [hl] at hset
      cases hset
      exact hmem

/-- A release that gets through succeeds, and then no record of the key is live, whatever configs
the claimant carries itself. -/
theorem release_eq_none (h : Sound k now es) (args : List String) :
    (Entries.release now [k.text, k.flag, k.configs] args es).1 = .ok () ∧
      ∀ r : Record, live? now (r.name k)
        (Entries.release now [k.text, k.flag, k.configs] args es).2 = none := by
  obtain ⟨set, hset, hmem⟩ := h.exists_registered
  obtain ⟨hok, hlive⟩ := release_of_registered_eq_some k.text k.flag args hset
  refine ⟨hok, ?_⟩
  intro r
  rw [hlive]
  by_cases hdoomed : r.name k ∈ doomed k.text k.flag k.configs args set
  · exact if_pos hdoomed
  · rw [if_neg hdoomed]
    rw [mem_doomed, not_or] at hdoomed
    -- A position record that is live has its config in the set, so its name is doomed.
    have hposition : ∀ config, r.config? = some config →
        r.name k ∈ positionKeys k.text config → es.live? now (r.name k) = none := by
      intro config hr hname
      cases he : es.live? now (r.name k) with
      | none => rfl
      | some e =>
        have hconfig := hmem r config e hr he
        exact absurd ⟨config, .inr hconfig, hname⟩ hdoomed.2
    cases r with
    | holder | flag | configs => exact absurd (by simp [Record.name]) hdoomed.1
    | baseline config => exact hposition config rfl List.mem_cons_self
    | latest config =>
      exact hposition config rfl (List.mem_cons_of_mem _ List.mem_cons_self)

theorem of_eq_none (h : ∀ r : Record, es.live? now (r.name k) = none) : Sound k now es where
  fit r e he := by
    rw [h] at he
    cases he
  tracked r config e _ he := by
    rw [h] at he
    cases he

theorem effect (h : Sound c.key now es) (contact : Contact) :
    Sound c.key now (contact.effect c now es) := by
  cases contact with
  | claim window => exact h.claim window
  | advance config location offset => exact h.advance config location _ _
  | readLatest => exact h.congr fun r ↦ live?_carryOutAll_of_reads c.latestReads_reads es _
  | setFlag ttl => exact h.setFlag ttl
  | readFlag => exact h.congr fun r ↦ live?_getText c.key.flag _ es
  | release => exact of_eq_none (h.release_eq_none c.locations.keys).2

end Sound

theorem Contact.live?_claim_of_offered {c : Claimant} {now : Instant} {es : Entries}
    (window : Duration) {r : Record} {v : String} (hnone : es.live? now (r.name c.key) = none)
    (hv : c.offered? r = some v) :
    live? now (r.name c.key) ((Contact.claim window).effect c now es) =
      some ⟨.text v, deadline now window⟩ := by
  have hr : r ≠ .configs := by
    intro heq
    subst heq
    cases hv
  change live? now (r.name c.key) (carryOutAll now (c.claimRequests window) es).2 = _
  rw [Claimant.live?_claim, Claimant.claimed_of_ne_configs hr, hnone, hv]
  rfl

theorem Contact.live?_claim_of_live {c : Claimant} {now : Instant} {es : Entries}
    (window : Duration) {r : Record} {e : Entry} (hr : r ≠ .configs)
    (hlive : es.live? now (r.name c.key) = some e) :
    live? now (r.name c.key) ((Contact.claim window).effect c now es) = some e := by
  change live? now (r.name c.key) (carryOutAll now (c.claimRequests window) es).2 = _
  rw [Claimant.live?_claim, Claimant.claimed_of_ne_configs hr, hlive]
  rfl

/-- No contact but a release takes a live text away. -/
theorem Contact.keepsTexts (c : Claimant) (now : Instant) (es : Entries) {contact : Contact}
    (h : contact ≠ .release) : KeepsTexts now es (contact.effect c now es) := by
  cases contact with
  | claim window => exact keepsTexts_carryOutAll Claimant.claimRequests_deletes es
  | advance config location offset =>
    have hne := Record.latest_ne_configs c.key config
    exact keepsTexts_advance hne location _ _ config es
  | readLatest => exact keepsTexts_of_live?_eq (live?_carryOutAll_of_reads c.latestReads_reads es)
  | setFlag ttl => exact keepsTexts_carryOut (r := .setIfAbsent _ _ ttl) rfl es
  | readFlag => exact keepsTexts_of_live?_eq fun other ↦ live?_getText c.key.flag other es
  | release => exact absurd rfl h

end UniqueJobs
