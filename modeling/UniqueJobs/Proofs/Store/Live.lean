import UniqueJobs.Store.Local

/-!
What the operations of the local store do to its live entries. At any instant the live entries
decide every answer and the live entries afterwards, so the entries that have expired are never
mentioned: one equation an operation, in terms of `Entries.live?` at the instant of the call.
-/

namespace UniqueJobs

theorem Entry.isLive_mono {e : Entry} {now t : Instant} (h : now.nanos ≤ t.nanos)
    (ht : e.isLive t = true) : e.isLive now = true := by
  rcases e with ⟨content, _ | x⟩
  · rfl
  · simp only [Entry.isLive, decide_eq_true_eq] at ht ⊢
    omega

theorem Instant.nanos_of_after? {t x : Instant} {d : Duration} (h : t.after? d = some x) :
    x.nanos = t.nanos + d.nanos := by
  simp only [Instant.after?] at h
  by_cases hl : t.nanos + d.nanos < Instant.limit
  · rw [if_pos hl] at h
    obtain rfl := Option.some.inj h
    rfl
  · rw [if_neg hl] at h
    cases h

theorem nanos_of_deadline {now x : Instant} {ttl : Duration} (h : deadline now ttl = some x) :
    x.nanos = now.nanos + max ttl.nanos minTtl.nanos := by
  have hx := Instant.nanos_of_after? h
  split at hx <;> omega

theorem deadline_eq_none_iff {now : Instant} {ttl : Duration} :
    deadline now ttl = none ↔ Instant.limit ≤ now.nanos + max ttl.nanos minTtl.nanos := by
  have hmax : (if ttl.nanos < minTtl.nanos then minTtl else ttl).nanos =
      max ttl.nanos minTtl.nanos := by
    split <;> omega
  rw [deadline, Instant.after?, hmax]
  split
  · exact iff_of_false (Option.some_ne_none _) (by omega)
  · exact iff_of_true rfl (by omega)

/-- A record lives until its time is over, or for ever where the clock ends before. -/
theorem isLive_deadline {content : Content} {now t : Instant} {ttl : Duration}
    (ht : t.nanos < now.nanos + max ttl.nanos minTtl.nanos) :
    Entry.isLive ⟨content, deadline now ttl⟩ t = true := by
  cases h : deadline now ttl with
  | none => rfl
  | some x =>
    have hx := nanos_of_deadline h
    simp only [Entry.isLive, decide_eq_true_eq]
    omega

theorem minTtl_pos : 0 < minTtl.nanos := by
  simp [minTtl, Duration.ofMillis, Duration.limit, UInt64.size]

theorem isLive_deadline_self (content : Content) (now : Instant) (ttl : Duration) :
    Entry.isLive ⟨content, deadline now ttl⟩ now = true := by
  have h := minTtl_pos
  exact isLive_deadline (by omega)

theorem isLive_laterExpiry {content content' : Content} {a b : Option Instant} {now : Instant}
    (h : Entry.isLive ⟨content, a⟩ now = true) :
    Entry.isLive ⟨content', laterExpiry a b⟩ now = true := by
  rcases a with _ | a
  · rfl
  rcases b with _ | b
  · rfl
  simp only [Entry.isLive, laterExpiry, decide_eq_true_eq] at h ⊢
  split <;> omega

namespace Entries

theorem live?_of_le {now t : Instant} (h : now.nanos ≤ t.nanos) (name : String) (es : Entries) :
    es.live? t name = (es.live? now name).filter (·.isLive t) := by
  simp only [live?]
  cases hg : es.get? name with
  | none => rfl
  | some e =>
    cases ht : e.isLive t with
    | true =>
      have hnow := Entry.isLive_mono h ht
      simp [Option.filter, ht, hnow]
    | false => cases hn : e.isLive now <;> simp [Option.filter, ht, hn]

variable {now : Instant}

theorem isLive_of_live? {name : String} {es : Entries} {e : Entry}
    (h : es.live? now name = some e) : e.isLive now = true := by
  exact (Option.filter_eq_some_iff.mp h).2

theorem live?_insert {e : Entry} (he : e.isLive now = true) (name other : String) (es : Entries) :
    live? now other (es.insert name e) = if name = other then some e else es.live? now other := by
  rw [live?, Dictionary.get?_insert]
  split
  · simp [Option.filter, he]
  · rfl

theorem live?_erase (name other : String) (es : Entries) :
    live? now other (es.erase name) = if name = other then none else es.live? now other := by
  rw [live?, Dictionary.get?_erase]
  split <;> rfl

theorem live?_eq_ite {name : String} {es : Entries} {found : Option Entry}
    (h : es.live? now name = found) (other : String) :
    es.live? now other = if name = other then found else es.live? now other := by
  by_cases heq : name = other
  · rw [if_pos heq, ← heq, h]
  · rw [if_neg heq]

@[simp] theorem live?_purge (name other : String) (es : Entries) :
    live? now other (es.purge now name) = es.live? now other := by
  cases hg : es.get? name with
  | none => simp only [purge, hg]
  | some e =>
    cases hl : e.isLive now with
    | true => simp [purge, hg, hl]
    | false =>
      have hnone : es.live? now name = none := by simp [live?, hg, hl, Option.filter]
      simp only [purge, hg, hl, Bool.false_eq_true, ↓reduceIte]
      rw [live?_erase]
      exact (live?_eq_ite hnone other).symm

theorem setIfAbsent_fst (name value : String) (ttl : Duration) (es : Entries) :
    (setIfAbsent now name value ttl es).1 = (es.live? now name).isNone := by
  simp only [setIfAbsent, get?_purge]
  cases es.live? now name <;> rfl

/-- The entry that was there stays; where there was none the text is written. -/
theorem live?_setIfAbsent (name value : String) (ttl : Duration) (es : Entries) (other : String) :
    live? now other (setIfAbsent now name value ttl es).2 =
      if name = other then some ((es.live? now name).getD ⟨.text value, deadline now ttl⟩)
      else es.live? now other := by
  simp only [setIfAbsent, get?_purge]
  cases h : es.live? now name with
  | none =>
    have hlive := isLive_deadline_self (.text value) now ttl
    simp [live?_insert hlive]
  | some e =>
    simp only [live?_purge, Option.getD_some]
    exact live?_eq_ite h other

theorem getText_fst (name : String) (es : Entries) :
    (getText now name es).1 =
      match es.live? now name with
      | none => .ok none
      | some ⟨.text s, _⟩ => .ok (some s)
      | some _ => .error (.wrongType name) := by
  simp only [getText, get?_purge]
  rcases es.live? now name with _ | ⟨_ | _ | _, _⟩ <;> rfl

@[simp] theorem live?_getText (name other : String) (es : Entries) :
    live? now other (getText now name es).2 = es.live? now other := by
  simp only [getText, get?_purge]
  rcases es.live? now name with _ | ⟨_ | _ | _, _⟩ <;> simp

theorem getItem_fst (name : String) (index : Int) (es : Entries) :
    (getItem now name index es).1 =
      match es.live? now name with
      | none => .ok none
      | some ⟨.list items, _⟩ => .ok (itemAt? items index)
      | some _ => .error (.wrongType name) := by
  simp only [getItem, get?_purge]
  rcases es.live? now name with _ | ⟨_ | _ | _, _⟩ <;> rfl

@[simp] theorem live?_getItem (name : String) (index : Int) (es : Entries) (other : String) :
    live? now other (getItem now name index es).2 = es.live? now other := by
  simp only [getItem, get?_purge]
  rcases es.live? now name with _ | ⟨_ | _ | _, _⟩ <;> simp

theorem live?_delete (names : List String) (es : Entries) (other : String) :
    live? now other (delete now names es).2 =
      if other ∈ names then none else es.live? now other := by
  induction names generalizing es with
  | nil => simp [delete]
  | cons name rest ih =>
    simp only [delete, get?_purge]
    cases h : es.live? now name with
    | none =>
      simp only [ih, live?_purge, List.mem_cons]
      by_cases ho : other = name
      · subst ho
        simp [h]
      · simp [ho]
    | some e =>
      simp only [ih, live?_erase, live?_purge, List.mem_cons]
      by_cases ho : other = name
      · simp [ho]
      · simp [ho, Ne.symm ho]

end Entries

end UniqueJobs
