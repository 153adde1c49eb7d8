import UniqueJobs.Proofs.Journal.Chain

/-!
The list of the furthest position of a config. As long as it lives and all offers to it are measured
from one baseline, it holds the furthest of the locations that have been offered. Main statements:
`Move.furthest` for one note and `Chain.exists_furthest` for a list from the note that makes it on.
-/

namespace UniqueJobs

open Entries

def Measures.lsn : Measures := fun measure ↦
  measure = fun _ location baseline ↦ Lsn.distance location baseline

/-- Is it the note of a location that is offered to the list of a config? -/
def Note.Updates (k : JobKey) (config : String) (caller : Caller) (location : String)
    (failure : Option StoreError) (n : Note) : Prop :=
  ∃ offset ttl before after, n = .called caller (.run .advance [k.latest config, k.configs]
    [location, offset, ttl, config]) failure before after

/-- Does the list of a config live after each note, with every offer measured from one baseline? -/
structure Lasting (k : JobKey) (config b : String) (notes : List Note) : Prop where
  live : ∀ n ∈ notes, n.after.store.entries.live? n.after.clock (k.latest config) ≠ none
  baseline : ∀ n ∈ notes, ∀ caller location failure, n.Updates k config caller location failure →
    text? n.before.clock (k.baseline config) n.before.store.entries = some b

theorem Lasting.of_cons {k : JobKey} {config b : String} {n : Note} {notes : List Note}
    (h : Lasting k config b (n :: notes)) : Lasting k config b notes :=
  ⟨fun m hm ↦ h.live m (List.mem_cons_of_mem n hm),
    fun m hm ↦ h.baseline m (List.mem_cons_of_mem n hm)⟩

section

variable {k : JobKey} {config b location : String} {caller other : Caller} {c : Claimant}
  {failure : Option StoreError} {locations : List String} {s s' : Site} {notes : List Note}

theorem Contact.updates_advance (caller : Caller) (c : Claimant) (config location : String)
    (offset : Int64) (s : Site) :
    ((Contact.advance config location offset).note caller c s).Updates c.key config caller location
      ((Contact.advance config location offset).failure? c s.clock s.store.entries) :=
  ⟨_, _, _, _, rfl⟩

theorem Contact.eq_advance {contact : Contact}
    (h : (contact.note caller c s).Updates k config other location failure) :
    ∃ offset, contact = .advance config location offset ∧
      contact.failure? c s.clock s.store.entries = failure := by
  obtain ⟨offset, ttl, before, after, heq⟩ := h
  obtain ⟨-, hcall, hfailure, -⟩ := Note.called.inj heq
  cases contact with
  | advance config' location' offset' =>
    have hargs := (StoreCall.run.inj hcall).2.2
    simp only [List.cons.injEq, and_true] at hargs
    obtain ⟨rfl, -, -, rfl⟩ := hargs
    exact ⟨offset', rfl, hfailure⟩
  | claim | readLatest | setFlag | readFlag | release => cases hcall

/-- What an offer makes of a list of offers, and that it is one of them unless it has failed. -/
theorem Contact.furthest_advance {now : Instant} {es : Entries} {offset : Int64}
    (hdistance : Lsn.distance location b = .ok offset)
    (h : Furthest b locations (es.live? now (c.key.latest config))) :
    ∃ more, Furthest b (locations ++ more) (live? now (c.key.latest config)
        ((Contact.advance config location offset).effect c now es)) ∧
      ((Contact.advance config location offset).failure? c now es = none → location ∈ more) := by
  cases httl : Text.readNat 10 (UInt64.size - 1) (toString c.settings.latestTtl.millis).toList with
  | error f =>
    -- A time that cannot be read is found before anything has changed.
    refine ⟨[], ?_, ?_⟩
    · rw [List.append_nil]
      simpa only [Contact.effect, runProcedure, Entries.advance, Text.readInt64_toString,
        httl] using h
    · simp only [Contact.failure?, runProcedure, Entries.advance, Text.readInt64_toString, httl,
        Journal.failureOf, reduceCtorEq, false_imp_iff]
  | ok millis =>
    have hlist := @live?_advance_list now (c.key.latest config) _ _ offset millis
      (Text.readInt64_toString offset) httl c.key.configs location config es
    refine ⟨[location], ?_, fun _ ↦ List.mem_singleton.mpr rfl⟩
    rw [Contact.effect, hlist]
    exact h.raised hdistance _

theorem Touch.furthest {n : Note} (hn : Touch k .lsn caller n)
    (hbaseline : ∀ other location failure, n.Updates k config other location failure →
      text? n.before.clock (k.baseline config) n.before.store.entries = some b)
    (h : Furthest b locations (n.before.store.entries.live? n.before.clock (k.latest config))) :
    ∃ more, Furthest b (locations ++ more)
        (n.after.store.entries.live? n.after.clock (k.latest config)) ∧
      ∀ other location, n.Updates k config other location none → location ∈ more := by
  cases hn with
  | @intro c contact s hkey hrelease hoffer =>
    subst hkey
    -- Only an offer for the config itself makes a difference to its list.
    by_cases hadvance : ∃ location offset, contact = .advance config location offset
    · obtain ⟨location, offset, rfl⟩ := hadvance
      obtain ⟨_, rfl, hdistance⟩ := hoffer config location offset rfl
      have hb := hbaseline _ _ _ (Contact.updates_advance caller c config location offset s)
      change text? s.clock (c.key.baseline config) s.store.entries = some b at hb
      rw [hb, Option.getD_some] at hdistance
      obtain ⟨more, hmore, hmem⟩ := Contact.furthest_advance hdistance h
      refine ⟨more, hmore, ?_⟩
      intro other location' hupdates
      obtain ⟨_, heq, hfailure⟩ := Contact.eq_advance hupdates
      cases heq
      exact hmem hfailure
    · refine ⟨[], ?_, ?_⟩
      · rw [List.append_nil]
        have hother (location : String) (offset : Int64) :
            contact ≠ .advance config location offset :=
          fun heq ↦ hadvance ⟨location, offset, heq⟩
        change Furthest b _ (live? s.clock _ (contact.effect c s.clock s.store.entries))
        rw [Contact.live?_latest hrelease hother]
        exact h
      · intro other location hupdates
        obtain ⟨offset, heq, -⟩ := Contact.eq_advance hupdates
        exact absurd ⟨location, offset, heq⟩ hadvance

theorem Move.furthest {n : Note} (hn : Move k .lsn n)
    (hlive : n.after.store.entries.live? n.after.clock (k.latest config) ≠ none)
    (hbaseline : ∀ other location failure, n.Updates k config other location failure →
      text? n.before.clock (k.baseline config) n.before.store.entries = some b)
    (h : Furthest b locations (n.before.store.entries.live? n.before.clock (k.latest config))) :
    ∃ more, Furthest b (locations ++ more)
        (n.after.store.entries.live? n.after.clock (k.latest config)) ∧
      ∀ other location, n.Updates k config other location none → location ∈ more := by
  cases hn with
  | touch htouch => exact htouch.furthest hbaseline h
  | mark hmark =>
    refine ⟨[], ?_, ?_⟩
    · rw [List.append_nil, Note.after_eq_before hmark]
      exact h
    · rintro other location ⟨offset, ttl, before, after, rfl⟩
      cases hmark
  | @wait s d =>
    refine ⟨[], ?_, ?_⟩
    · change live? (s.advance d).clock _ s.store.entries ≠ none at hlive
      change Furthest b _ (live? (s.advance d).clock _ s.store.entries)
      have hle : s.clock.nanos ≤ (s.advance d).clock.nanos := Nat.le_add_right _ _
      rw [live?_of_le hle] at hlive ⊢
      rw [List.append_nil]
      obtain ⟨e, he⟩ := Option.ne_none_iff_exists'.mp hlive
      rw [he, ← (Option.filter_eq_some_iff.mp he).1]
      exact h
    · rintro other location ⟨offset, ttl, before, after, heq⟩
      cases heq
  | @release caller c s hkey =>
    subst hkey
    refine ⟨[], ?_, ?_⟩
    · change live? s.clock _ (Contact.release.effect c s.clock s.store.entries) ≠ none at hlive
      change Furthest b _ (live? s.clock _ (Contact.release.effect c s.clock s.store.entries))
      rw [List.append_nil, Contact.live?_latest_release hlive]
      exact h
    · intro other location hupdates
      obtain ⟨offset, heq, -⟩ := Contact.eq_advance hupdates
      cases heq

/-- Along a chain the list goes on holding the furthest of what has been offered to it. -/
theorem Chain.furthest (h : Chain (Move k .lsn) s notes s') (hlasting : Lasting k config b notes)
    (hfurthest : Furthest b locations (s.store.entries.live? s.clock (k.latest config))) :
    ∃ more, Furthest b (locations ++ more) (s'.store.entries.live? s'.clock (k.latest config)) ∧
      ∀ n ∈ notes, ∀ other location, n.Updates k config other location none → location ∈ more := by
  induction h generalizing locations with
  | rest hstill =>
    rw [← hstill.clock, ← hstill.store] at hfurthest
    exact ⟨[], by rwa [List.append_nil], by simp⟩
  | @step n s s' notes hstill hn hrest ih =>
    rw [← hstill.clock, ← hstill.store] at hfurthest
    obtain ⟨first, hfirst, hmem⟩ := hn.furthest (hlasting.live n List.mem_cons_self)
      (hlasting.baseline n List.mem_cons_self) hfurthest
    obtain ⟨last, hlast, hmem'⟩ := ih hlasting.of_cons hfirst
    refine ⟨first ++ last, by rwa [← List.append_assoc], ?_⟩
    refine List.forall_mem_cons.mpr ⟨?_, ?_⟩
    · intro other location hupdates
      exact List.mem_append_left last (hmem other location hupdates)
    · intro m hm other location hupdates
      exact List.mem_append_right first (hmem' m hm other location hupdates)

theorem Furthest.exists_of_mem {found : Option Entry} (h : Furthest b locations found)
    (hmem : location ∈ locations) : ∃ furthest offset x,
      found = some (.position furthest offset x) ∧
        ∃ p q, Lsn.parse furthest = .ok p ∧ Lsn.parse location = .ok q ∧ q ≤ p := by
  cases found with
  | none =>
    cases h
    cases hmem
  | some e =>
    obtain ⟨furthest, offset, x, rfl, -, hall⟩ := h.exists_location
    exact ⟨furthest, offset, x, rfl, hall location hmem⟩

end

/-- The list of a config from the note that makes it on, offers to it being measured from one
baseline. -/
structure Standing (k : JobKey) (config b : String) (made : Note) (span : List Note) : Prop
    extends Lasting k config b (made :: span) where
  absent : made.before.store.entries.live? made.before.clock (k.latest config) = none

theorem Chain.exists_furthest {k : JobKey} {config b own : String} {made n : Note}
    {span : List Note} {s s' : Site} {caller : Caller}
    (h : Chain (Move k .lsn) s (made :: span) s') (hstanding : Standing k config b made span)
    (hn : n ∈ made :: span) (hupdates : n.Updates k config caller own none) :
    ∃ furthest offset x, s'.store.entries.live? s'.clock (k.latest config) =
        some (.position furthest offset x) ∧
      ∃ p q, Lsn.parse furthest = .ok p ∧ Lsn.parse own = .ok q ∧ q ≤ p := by
  have habsent : s.store.entries.live? s.clock (k.latest config) = none := by
    cases h with
    | step hstill =>
      rw [← hstill.clock, ← hstill.store]
      exact hstanding.absent
  have hnothing : Furthest b [] (s.store.entries.live? s.clock (k.latest config)) := by
    rw [habsent]
    exact .absent
  obtain ⟨more, hfurthest, hmem⟩ := h.furthest hstanding.toLasting hnothing
  exact hfurthest.exists_of_mem (hmem n hn caller own hupdates)

end UniqueJobs
