import UniqueJobs.Claimant
import UniqueJobs.Proofs.Record
import UniqueJobs.Proofs.Store.Batch

/-!
What one claim does to the records under its key, and what it learns. `live?_claim` gives the live
entry of every record after the claim from the one before; `readClaim_of_claim` says that the answer
is what is live afterwards, and `exists_readClaim` that there is an answer.
-/

namespace UniqueJobs

open Entries

namespace Claimant

variable {now : Instant}

theorem ofJob_facts (settings : Settings) (worker : Option Worker) (job : Job) :
    let c := (ofJob settings worker job).1
    c.worker = worker ∧ c.workerName = job.worker ∧ c.id = job.id ∧
      c.key = (job.identify settings.keyspace).1 ∧ c.locations = job.locations ∧
      c.runAt = job.runAt ∧ c.latest = none ∧
      (ofJob settings worker job).2.locations = job.locations := by
  rw [ofJob, Job.identify]
  cases job.key <;> exact ⟨rfl, rfl, rfl, rfl, rfl, rfl, rfl, rfl⟩

/-- The texts that a claim offers, each under the name of its record. -/
def offeredTexts (c : Claimant) : List (String × String) :=
  (c.key.text, c.id.text) :: c.locations.entries.map fun e ↦ (c.key.baseline e.1, e.2)

def offered? (c : Claimant) : Record → Option String
  | .holder => some c.id.text
  | .baseline config => c.locations.get? config
  | _ => none

theorem find_map_baseline (k : JobKey) (config : String) (l : List (String × String)) :
    Dictionary.find (k.baseline config) (l.map fun e ↦ (k.baseline e.1, e.2)) =
      Dictionary.find config l := by
  induction l with
  | nil => rfl
  | cons e rest ih =>
    obtain ⟨other, location⟩ := e
    simp only [List.map_cons, Dictionary.find, ih]
    by_cases h : other = config
    · simp [h]
    · have hr : Record.baseline other ≠ .baseline config := by simpa using h
      have hne : k.baseline other ≠ k.baseline config := Record.name_ne k hr
      rw [if_neg h, if_neg hne]

theorem find_map_baseline_of_ne {k : JobKey} {r : Record} (hr : ∀ config, r ≠ .baseline config)
    (l : List (String × String)) :
    Dictionary.find (r.name k) (l.map fun e ↦ (k.baseline e.1, e.2)) = none := by
  induction l with
  | nil => rfl
  | cons e rest ih =>
    have hne : k.baseline e.1 ≠ r.name k := (Record.name_ne k (hr e.1)).symm
    simp only [List.map_cons, Dictionary.find, ih, if_neg hne]

theorem find_offeredTexts (c : Claimant) (r : Record) :
    Dictionary.find (r.name c.key) c.offeredTexts = c.offered? r := by
  have hne : r ≠ .holder → c.key.text ≠ r.name c.key := by
    intro hr
    exact (Record.name_ne c.key hr).symm
  rw [offeredTexts, Dictionary.find]
  cases r with
  | holder => exact if_pos rfl
  | baseline config =>
    rw [if_neg (hne (by simp))]
    exact find_map_baseline c.key config c.locations.entries
  | flag | configs | latest =>
    rw [if_neg (hne (by simp))]
    exact find_map_baseline_of_ne (by simp) c.locations.entries

theorem claimWrites_eq (c : Claimant) (window : Duration) :
    c.claimWrites window = c.offeredTexts.map (fun p ↦ .setIfAbsent p.1 p.2 window) ++
      if c.locations.isEmpty then [] else [.addNames c.key.configs c.locations.keys window] := by
  simp [claimWrites, offeredTexts, Function.comp_def]

def readNames (c : Claimant) : List String :=
  c.key.text :: c.locations.keys.map c.key.baseline

theorem claimReads_eq (c : Claimant) : c.claimReads = c.readNames.map .get := by
  simp [claimReads, readNames, Function.comp_def]

def claimRequests (c : Claimant) (window : Duration) : List Request :=
  c.claimWrites window ++ c.claimReads

theorem claimRequests_deletes {c : Claimant} {window : Duration} :
    ∀ r ∈ c.claimRequests window, r.deletes = false := by
  intro r hr
  simp only [claimRequests, claimWrites_eq, claimReads_eq, List.mem_append, List.mem_map] at hr
  rcases hr with (⟨p, -, rfl⟩ | hr) | ⟨name, -, rfl⟩
  · rfl
  · split at hr
    · cases hr
    · rw [List.mem_singleton] at hr
      subst hr
      rfl
  · rfl

/-- The entry of a record after a claim whose writes expire at `expiry`. -/
def claimed (c : Claimant) (expiry : Option Instant) (r : Record) (found : Option Entry) :
    Option Entry :=
  match r with
  | .configs => if c.locations.isEmpty then found else joined c.locations.keys expiry found
  | r => found.or ((c.offered? r).map fun v ↦ ⟨.text v, expiry⟩)

theorem claimed_configs (c : Claimant) (expiry : Option Instant) (found : Option Entry) :
    c.claimed expiry .configs found =
      if c.locations.isEmpty then found else joined c.locations.keys expiry found := rfl

theorem claimed_of_ne_configs {c : Claimant} {expiry : Option Instant} {r : Record}
    (hr : r ≠ .configs) (found : Option Entry) :
    c.claimed expiry r found = found.or ((c.offered? r).map fun v ↦ ⟨.text v, expiry⟩) := by
  cases r with
  | configs => exact absurd rfl hr
  | holder | flag | baseline | latest => rfl

theorem claimReads_reads {c : Claimant} : ∀ r ∈ c.claimReads, r.reads = true := by
  intro r hr
  rw [claimReads_eq, List.mem_map] at hr
  obtain ⟨name, -, rfl⟩ := hr
  rfl

theorem live?_claim (c : Claimant) (window : Duration) (es : Entries) (r : Record) :
    live? now (r.name c.key) (carryOutAll now (c.claimRequests window) es).2 =
      c.claimed (deadline now window) r (es.live? now (r.name c.key)) := by
  obtain ⟨replies, es₁, htexts, -, hlive⟩ :=
    @carryOutAll_setIfAbsent now c.offeredTexts window es
  have hfound : live? now (r.name c.key) es₁ = (es.live? now (r.name c.key)).or
      ((c.offered? r).map fun v ↦ ⟨.text v, deadline now window⟩) := by
    rw [hlive, find_offeredTexts]
  rw [claimRequests, live?_carryOutAll_append_of_reads claimReads_reads, claimWrites_eq]
  by_cases hempty : c.locations.isEmpty = true
  · rw [if_pos hempty, List.append_nil, htexts, hfound]
    cases r <;> simp [claimed, offered?, hempty]
  · rw [if_neg hempty, carryOutAll_append_of_ok htexts, carryOutAll_singleton]
    change live? now (r.name c.key)
      (addNames now c.key.configs c.locations.keys window es₁).2 = _
    rw [live?_addNames]
    by_cases hr : r = .configs
    · subst hr
      have hconfigs : live? now c.key.configs es₁ = es.live? now c.key.configs := by
        simpa [offered?, Record.name] using hfound
      simp only [Record.name, ↓reduceIte, hconfigs, claimed, hempty, Bool.false_eq_true]
    · have hne : c.key.configs ≠ r.name c.key := (Record.name_ne c.key hr).symm
      rw [if_neg hne, hfound, claimed_of_ne_configs hr]

theorem readValues_map (f : String → Option String) (configs : List String) :
    ∃ d, readValues configs (configs.map fun config ↦ .value (f config)) = .ok d ∧
      ∀ config, d.get? config = if config ∈ configs then f config else none := by
  induction configs with
  | nil => exact ⟨.empty, rfl, fun config ↦ by simp⟩
  | cons head rest ih =>
    obtain ⟨d, hd, hget⟩ := ih
    simp only [List.map_cons, readValues, Reply.toValue, hd]
    cases hf : f head with
    | none =>
      refine ⟨d, rfl, fun config ↦ ?_⟩
      simp only [hget, List.mem_cons]
      by_cases h : config = head
      · subst h
        simp [hf]
      · simp [h]
    | some location =>
      refine ⟨d.insert head location, rfl, fun config ↦ ?_⟩
      simp only [Dictionary.get?_insert, hget, List.mem_cons]
      by_cases h : config = head
      · subst h
        simp [hf]
      · simp [h, Ne.symm h]

theorem readClaim_of_drop {c : Claimant} {replies : List Reply} {f : String → Option String}
    (h : replies.drop c.writeCount = c.readNames.map fun name ↦ .value (f name)) :
    ∃ d : Dictionary String,
      (∀ config, d.get? config =
        if c.locations.contains config = true then f (c.key.baseline config) else none) ∧
      c.readClaim replies =
        match f c.key.text with
        | none => .error (.unexpectedReply (.vanished c.key.text))
        | some winner => .ok (⟨winner⟩, d) := by
  obtain ⟨d, hd, hget⟩ := readValues_map (fun config ↦ f (c.key.baseline config)) c.locations.keys
  refine ⟨d, fun config ↦ ?_, ?_⟩
  · rw [hget]
    simp only [Dictionary.mem_keys_iff]
  · simp only [readClaim, h, readNames, List.map_cons, Reply.toValue, List.map_map,
      Function.comp_def, hd]
    cases f c.key.text <;> rfl

theorem replies_of_claim {c : Claimant} {window : Duration} {es : Entries} {replies : List Reply}
    (h : (carryOutAll now (c.claimRequests window) es).1 = .ok replies) :
    replies.drop c.writeCount = c.readNames.map fun name ↦
      .value (text? now name (carryOutAll now (c.claimRequests window) es).2) := by
  rw [claimRequests] at h ⊢
  rcases hw : carryOutAll now (c.claimWrites window) es with ⟨_ | first, es₁⟩
  · simp [carryOutAll_append_of_error hw] at h
  · have hlen := length_of_carryOutAll (congrArg Prod.fst hw)
    rw [length_claimWrites] at hlen
    rw [carryOutAll_append_of_ok hw] at h ⊢
    rcases hr : (carryOutAll now c.claimReads es₁).1 with _ | more
    · simp [hr, Except.map] at h
    · simp only [hr, Except.map, Except.ok.injEq] at h
      have hmore := replies_of_reads claimReads_reads hr
      rw [claimReads_eq, List.map_map] at hmore
      rw [← h, ← hlen, List.drop_left, hmore]
      -- The reads come last, so what they find is what is live after the claim.
      apply List.map_congr_left
      intro name _
      rw [Function.comp_apply, found?,
        text?_congr (live?_carryOutAll_of_reads claimReads_reads es₁ name)]

/-- A claim that is answered gives the holder and the baselines that are live after it. -/
theorem readClaim_of_claim {c : Claimant} {window : Duration} {es : Entries}
    {replies : List Reply} {winner : JobId} {baselines : Dictionary String}
    (h : (carryOutAll now (c.claimRequests window) es).1 = .ok replies)
    (hread : c.readClaim replies = .ok (winner, baselines)) :
    text? now c.key.text (carryOutAll now (c.claimRequests window) es).2 = some winner.text ∧
    ∀ config, baselines.get? config =
      if c.locations.contains config = true then
        text? now (c.key.baseline config) (carryOutAll now (c.claimRequests window) es).2
      else none := by
  obtain ⟨d, hd, hclaim⟩ := readClaim_of_drop (replies_of_claim h)
  rw [hclaim] at hread
  generalize text? now c.key.text _ = found at hread ⊢
  cases found with
  | none => simp at hread
  | some text =>
    simp only [Except.ok.injEq, Prod.mk.injEq] at hread
    obtain ⟨rfl, rfl⟩ := hread
    exact ⟨rfl, hd⟩

/-- What may be in a record may be read from it, all but a set of configs. -/
theorem readable_of_allFit {k : JobKey} {es : Entries} {r : Record} (h : Record.AllFit k now es)
    (hr : r ≠ .configs) : Readable now es (r.reading k) := by
  cases r with
  | configs => exact absurd rfl hr
  | holder | flag | baseline =>
    rintro ⟨content, x⟩ he
    have hfits := h _ _ he
    cases content with
    | text s => exact ⟨s, rfl⟩
    | list | names => exact False.elim hfits
  | latest config =>
    rintro ⟨content, x⟩ he
    have hfits := h (.latest config) _ he
    cases content with
    | list items => exact ⟨items, rfl⟩
    | text | names => exact False.elim hfits

theorem claimReads_eq_reading (c : Claimant) :
    c.claimReads = (Record.holder :: c.locations.keys.map Record.baseline).map (·.reading c.key) := by
  simp only [claimReads, List.map_cons, List.map_map]
  rfl

theorem exists_replies_of_claimWrites {c : Claimant} {es : Entries} (window : Duration)
    (h : ∀ e, es.live? now c.key.configs = some e → ∃ set, e.content = .names set) :
    ∃ replies, (carryOutAll now (c.claimWrites window) es).1 = .ok replies := by
  obtain ⟨replies, es₁, htexts, -, hlive⟩ :=
    @carryOutAll_setIfAbsent now c.offeredTexts window es
  have hnone : Dictionary.find c.key.configs c.offeredTexts = none :=
    find_offeredTexts c .configs
  have hfound := hlive c.key.configs
  rw [hnone, Option.map_none, Option.or_none] at hfound
  have hok : ∃ n, (addNames now c.key.configs c.locations.keys window es₁).1 = .ok n := by
    rw [addNames_fst, hfound]
    rcases hl : es.live? now c.key.configs with _ | ⟨_ | _ | set, x⟩
    · exact ⟨_, rfl⟩
    · obtain ⟨set, hcontent⟩ := h _ hl
      cases hcontent
    · obtain ⟨set, hcontent⟩ := h _ hl
      cases hcontent
    · exact ⟨_, rfl⟩
  rw [claimWrites_eq, carryOutAll_append_of_ok htexts]
  split
  · exact ⟨_, rfl⟩
  · obtain ⟨n, hn⟩ := hok
    rw [carryOutAll_singleton]
    simp only [carryOut, hn, Except.map]
    exact ⟨_, rfl⟩

theorem exists_replies_of_claim {c : Claimant} {window : Duration} {es : Entries}
    (h : Record.AllFit c.key now (carryOutAll now (c.claimRequests window) es).2) :
    ∃ replies, (carryOutAll now (c.claimRequests window) es).1 = .ok replies := by
  have hset : ∀ e, es.live? now c.key.configs = some e → ∃ set, e.content = .names set := by
    intro e he
    have hconfigs := @live?_claim now c window es .configs
    change es.live? now (Record.configs.name c.key) = some e at he
    rw [he] at hconfigs
    rcases e with ⟨s | items | set, x⟩
    · refine False.elim (h .configs ⟨.text s, x⟩ ?_)
      rw [hconfigs]
      simp [claimed, joined]
    · refine False.elim (h .configs ⟨.list items, x⟩ ?_)
      rw [hconfigs]
      simp [claimed, joined]
    · exact ⟨set, rfl⟩
  obtain ⟨first, hfirst⟩ := exists_replies_of_claimWrites window hset
  rcases hw : carryOutAll now (c.claimWrites window) es with ⟨_ | first, es₁⟩
  · simp [hw] at hfirst
  · have hlive := @live?_carryOutAll_of_reads now c.claimReads claimReads_reads es₁
    rw [claimRequests, carryOutAll_append_of_ok hw] at h ⊢
    have hreadable : ∀ r ∈ c.claimReads, Readable now es₁ r := by
      intro r hr
      rw [← readable_congr hlive]
      rw [claimReads_eq_reading] at hr
      obtain ⟨record, hrecord, rfl⟩ := List.mem_map.mp hr
      refine readable_of_allFit h ?_
      rintro rfl
      simp at hrecord
    rw [carryOutAll_of_readable hreadable]
    exact ⟨_, rfl⟩

/-- A claim that leaves every record fit is answered. -/
theorem exists_readClaim {c : Claimant} {window : Duration} {es : Entries}
    (h : Record.AllFit c.key now (carryOutAll now (c.claimRequests window) es).2) :
    ∃ replies winner baselines, (carryOutAll now (c.claimRequests window) es).1 = .ok replies ∧
      c.readClaim replies = .ok (winner, baselines) := by
  obtain ⟨replies, hreplies⟩ := exists_replies_of_claim h
  obtain ⟨d, -, hread⟩ := readClaim_of_drop (replies_of_claim hreplies)
  have hholder := @live?_claim now c window es .holder
  rw [claimed_of_ne_configs (by simp)] at hholder
  obtain ⟨e, he⟩ : ∃ e, live? now (Record.holder.name c.key)
      (carryOutAll now (c.claimRequests window) es).2 = some e := by
    rw [hholder]
    cases es.live? now (Record.holder.name c.key) <;> simp [offered?]
  obtain ⟨text, htext⟩ := readable_of_allFit h (r := .holder) (by simp) e he
  obtain ⟨content, x⟩ := e
  subst htext
  have hfound : text? now c.key.text (carryOutAll now (c.claimRequests window) es).2 =
      some text := text?_of_live? he
  rw [hfound] at hread
  exact ⟨replies, ⟨text⟩, d, hreplies, hread⟩

end Claimant

end UniqueJobs
