import UniqueJobs.Proofs.Store.Procedures

/-!
Batches of requests on live entries. `carryOutAll_of_readable` is what a batch that reads is answered.
The first writer of a text wins: no request but a deletion, and no procedure but a release, takes a
live text away or puts another in its place.
-/

namespace UniqueJobs

def Request.reads : Request → Bool
  | .get _ | .item .. => true
  | _ => false

def Request.deletes : Request → Bool
  | .delete _ => true
  | _ => false

namespace Entries

variable {now : Instant}

theorem carryOutAll_cons_of_ok {r : Request} {es es₁ : Entries} {reply : Reply}
    (h : carryOut now r es = (.ok reply, es₁)) (rest : List Request) :
    carryOutAll now (r :: rest) es =
      ((carryOutAll now rest es₁).1.map (reply :: ·), (carryOutAll now rest es₁).2) := by
  rcases hrest : carryOutAll now rest es₁ with ⟨_ | replies, es₂⟩ <;>
    simp only [carryOutAll, h, hrest, Except.map]

theorem carryOutAll_singleton (r : Request) (es : Entries) :
    carryOutAll now [r] es = ((carryOut now r es).1.map ([·]), (carryOut now r es).2) := by
  rcases h : carryOut now r es with ⟨_ | reply, es₁⟩
  · exact carryOutAll_cons_of_error h []
  · exact carryOutAll_cons_of_ok h []

theorem carryOutAll_append_of_error {first second : List Request} {es es₁ : Entries}
    {e : StoreError} (h : carryOutAll now first es = (.error e, es₁)) :
    carryOutAll now (first ++ second) es = (.error e, es₁) := by
  induction first generalizing es with
  | nil => simp [carryOutAll] at h
  | cons r rest ih =>
    rw [List.cons_append]
    rcases hr : carryOut now r es with ⟨e' | reply, es'⟩
    · rw [carryOutAll_cons_of_error hr] at h ⊢
      exact h
    · rw [carryOutAll_cons_of_ok hr] at h ⊢
      rcases hrest : carryOutAll now rest es' with ⟨e' | replies, es''⟩
      · simp only [hrest, Except.map, Prod.mk.injEq, Except.error.injEq] at h
        obtain ⟨rfl, rfl⟩ := h
        rw [ih hrest]
        rfl
      · simp [hrest, Except.map] at h

theorem carryOutAll_append_of_ok {first second : List Request} {es es₁ : Entries}
    {replies : List Reply} (h : carryOutAll now first es = (.ok replies, es₁)) :
    carryOutAll now (first ++ second) es =
      ((carryOutAll now second es₁).1.map (replies ++ ·), (carryOutAll now second es₁).2) := by
  induction first generalizing es replies with
  | nil =>
    simp only [carryOutAll, Prod.mk.injEq, Except.ok.injEq] at h
    obtain ⟨rfl, rfl⟩ := h
    rcases hs : carryOutAll now second es with ⟨_ | more, es₂⟩ <;> simp [hs, Except.map]
  | cons r rest ih =>
    rw [List.cons_append]
    rcases hr : carryOut now r es with ⟨e' | reply, es'⟩
    · rw [carryOutAll_cons_of_error hr] at h
      cases h
    · rw [carryOutAll_cons_of_ok hr] at h ⊢
      rcases hrest : carryOutAll now rest es' with ⟨e' | replies', es''⟩
      · simp [hrest, Except.map] at h
      · simp only [hrest, Except.map, Prod.mk.injEq, Except.ok.injEq] at h
        obtain ⟨rfl, rfl⟩ := h
        rw [ih hrest]
        rcases carryOutAll now second es'' with ⟨_ | more, es₂⟩ <;> simp [Except.map]

/-- What each request preserves, a batch preserves, wherever it breaks off. -/
theorem carryOutAll_induct {P : Entries → Entries → Prop} (hrefl : ∀ es, P es es)
    (htrans : ∀ {es es' es''}, P es es' → P es' es'' → P es es'') {l : List Request}
    (hl : ∀ r ∈ l, ∀ es, P es (carryOut now r es).2) (es : Entries) :
    P es (carryOutAll now l es).2 := by
  induction l generalizing es with
  | nil => exact hrefl es
  | cons r rest ih =>
    have hr := hl r List.mem_cons_self es
    have hrest := ih fun r hr ↦ hl r (List.mem_cons_of_mem _ hr)
    rcases h : carryOut now r es with ⟨_ | reply, es₁⟩
    · rw [carryOutAll_cons_of_error h]
      rwa [h] at hr
    · rw [carryOutAll_cons_of_ok h]
      rw [h] at hr
      exact htrans hr (hrest es₁)

theorem length_of_carryOutAll {l : List Request} {es : Entries} {replies : List Reply}
    (h : (carryOutAll now l es).1 = .ok replies) : replies.length = l.length := by
  induction l generalizing es replies with
  | nil =>
    simp only [carryOutAll, Except.ok.injEq] at h
    simp [← h]
  | cons r rest ih =>
    rcases hr : carryOut now r es with ⟨_ | reply, es₁⟩
    · rw [carryOutAll_cons_of_error hr] at h
      cases h
    · rw [carryOutAll_cons_of_ok hr] at h
      rcases hrest : (carryOutAll now rest es₁).1 with _ | more
      · simp [hrest, Except.map] at h
      · simp only [hrest, Except.map, Except.ok.injEq] at h
        rw [← h, List.length_cons, List.length_cons, ih hrest]

/-- Of texts offered under names in one batch, the first under each name is written where there was
nothing. -/
theorem carryOutAll_setIfAbsent (texts : List (String × String)) (ttl : Duration) (es : Entries) :
    ∃ replies es', carryOutAll now (texts.map fun p ↦ .setIfAbsent p.1 p.2 ttl) es =
        (.ok replies, es') ∧ replies.length = texts.length ∧
      ∀ other, live? now other es' = (es.live? now other).or
        ((Dictionary.find other texts).map fun v ↦ ⟨.text v, deadline now ttl⟩) := by
  induction texts generalizing es with
  | nil => exact ⟨[], es, rfl, rfl, fun other ↦ by simp [Dictionary.find]⟩
  | cons p rest ih =>
    obtain ⟨name, value⟩ := p
    obtain ⟨replies, es', hrest, hlen, hlive⟩ := ih (setIfAbsent now name value ttl es).2
    have hfirst : carryOut now (.setIfAbsent name value ttl) es =
        (.ok (.set (setIfAbsent now name value ttl es).1), (setIfAbsent now name value ttl es).2) :=
      rfl
    refine ⟨.set (setIfAbsent now name value ttl es).1 :: replies, es', ?_, by simp [hlen], ?_⟩
    · rw [List.map_cons, carryOutAll_cons_of_ok hfirst, hrest]
      rfl
    · intro other
      rw [hlive, live?_setIfAbsent, Dictionary.find]
      by_cases hn : name = other
      · subst hn
        cases es.live? now name <;> simp
      · simp [hn]

theorem live?_carryOut_of_reads {r : Request} (hr : r.reads = true) (es : Entries)
    (other : String) : live? now other (carryOut now r es).2 = es.live? now other := by
  cases r with
  | get name => exact live?_getText name other es
  | item name index => exact live?_getItem name index es other
  | setIfAbsent | delete | addNames => cases hr

theorem live?_carryOutAll_of_reads {l : List Request} (hl : ∀ r ∈ l, r.reads = true)
    (es : Entries) (other : String) :
    live? now other (carryOutAll now l es).2 = es.live? now other := by
  refine carryOutAll_induct (P := fun es es' ↦ live? now other es' = es.live? now other)
    (fun _ ↦ rfl) (fun h h' ↦ h'.trans h) (fun r hr es ↦ ?_) es
  exact live?_carryOut_of_reads (hl r hr) es other

theorem live?_carryOutAll_append_of_reads {first second : List Request}
    (h : ∀ r ∈ second, r.reads = true) (es : Entries) (other : String) :
    live? now other (carryOutAll now (first ++ second) es).2 =
      live? now other (carryOutAll now first es).2 := by
  rcases hf : carryOutAll now first es with ⟨_ | replies, es₁⟩
  · rw [carryOutAll_append_of_error hf]
  · rw [carryOutAll_append_of_ok hf]
    exact live?_carryOutAll_of_reads h es₁ other

def text? (now : Instant) (name : String) (es : Entries) : Option String :=
  match es.live? now name with
  | some ⟨.text s, _⟩ => some s
  | _ => none

/-- Is nothing but a text live under the name? -/
def TextOrNone (now : Instant) (es : Entries) (name : String) : Prop :=
  ∀ e, es.live? now name = some e → ∃ s, e.content = .text s

theorem text?_congr {es es' : Entries} {name : String}
    (h : live? now name es' = es.live? now name) : text? now name es' = es.text? now name := by
  simp only [text?, h]

theorem text?_of_live? {es : Entries} {name v : String} {x : Option Instant}
    (h : es.live? now name = some ⟨.text v, x⟩) : text? now name es = some v := by
  simp only [text?, h]

theorem text?_of_live?_eq_none {es : Entries} {name : String} (h : es.live? now name = none) :
    text? now name es = none := by
  simp only [text?, h]

theorem exists_live?_of_text? {es : Entries} {name v : String} (h : es.text? now name = some v) :
    ∃ x, es.live? now name = some ⟨.text v, x⟩ := by
  simp only [text?] at h
  split at h
  · rename_i s x hlive
    obtain rfl := Option.some.inj h
    exact ⟨x, hlive⟩
  · cases h

theorem getText_fst_of_textOrNone {es : Entries} {name : String} (h : TextOrNone now es name) :
    (getText now name es).1 = .ok (es.text? now name) := by
  rw [getText_fst, text?]
  rcases hl : es.live? now name with _ | ⟨_ | _ | _, x⟩
  · rfl
  · rfl
  · obtain ⟨s, hs⟩ := h _ hl
    cases hs
  · obtain ⟨s, hs⟩ := h _ hl
    cases hs

theorem eq_text?_of_getText {es : Entries} {name : String} {v : Option String}
    (h : (getText now name es).1 = .ok v) : v = es.text? now name := by
  rw [getText_fst] at h
  rw [text?]
  generalize es.live? now name = found at h ⊢
  rcases found with _ | ⟨_ | _ | _, x⟩
  · exact (Except.ok.inj h).symm
  · exact (Except.ok.inj h).symm
  · cases h
  · cases h

theorem text?_of_getText_error {es : Entries} {name : String} {e : StoreError}
    (h : (getText now name es).1 = .error e) : es.text? now name = none := by
  rw [getText_fst] at h
  rw [text?]
  generalize es.live? now name = found at h ⊢
  rcases found with _ | ⟨_ | _ | _, x⟩
  · cases h
  · cases h
  · rfl
  · rfl

/-- What a request that reads finds, where it is not refused. -/
def found? (now : Instant) (es : Entries) : Request → Option String
  | .get name => es.text? now name
  | .item name index =>
    match es.live? now name with
    | some ⟨.list items, _⟩ => itemAt? items index
    | _ => none
  | _ => none

/-- Does a request read, and is nothing live under its name that it may not read? -/
def Readable (now : Instant) (es : Entries) : Request → Prop
  | .get name => TextOrNone now es name
  | .item name _ => ∀ e, es.live? now name = some e → ∃ items, e.content = .list items
  | _ => False

theorem found?_congr {es es' : Entries} (h : ∀ name, live? now name es' = es.live? now name)
    (r : Request) : found? now es' r = found? now es r := by
  cases r with
  | get name => exact text?_congr (h name)
  | item name index => simp only [found?, h]
  | setIfAbsent | delete | addNames => rfl

theorem readable_congr {es es' : Entries} (h : ∀ name, live? now name es' = es.live? now name)
    (r : Request) : Readable now es' r ↔ Readable now es r := by
  cases r with
  | get name => simp only [Readable, TextOrNone, h]
  | item name index => simp only [Readable, h]
  | setIfAbsent | delete | addNames => rfl

theorem Readable.reads {r : Request} {es : Entries} (h : Readable now es r) : r.reads = true := by
  cases r with
  | get | item => rfl
  | setIfAbsent | delete | addNames => exact False.elim h

theorem getItem_fst_of_readable {es : Entries} {name : String} {index : Int}
    (h : Readable now es (.item name index)) :
    (getItem now name index es).1 = .ok (found? now es (.item name index)) := by
  rw [getItem_fst, found?]
  rcases hl : es.live? now name with _ | ⟨content, x⟩
  · rfl
  · obtain ⟨items, rfl⟩ := h _ hl
    rfl

theorem eq_found?_of_getItem {es : Entries} {name : String} {index : Int} {v : Option String}
    (h : (getItem now name index es).1 = .ok v) : v = found? now es (.item name index) := by
  rw [getItem_fst] at h
  rw [found?]
  generalize es.live? now name = found at h ⊢
  rcases found with _ | ⟨_ | _ | _, x⟩
  · exact (Except.ok.inj h).symm
  · cases h
  · exact (Except.ok.inj h).symm
  · cases h

theorem carryOut_of_readable {r : Request} {es : Entries} (h : Readable now es r) :
    (carryOut now r es).1 = .ok (.value (found? now es r)) := by
  cases r with
  | get name => simp only [carryOut, getText_fst_of_textOrNone h, Except.map, found?]
  | item name index => simp only [carryOut, getItem_fst_of_readable h, Except.map]
  | setIfAbsent | delete | addNames => exact False.elim h

theorem eq_value_of_carryOut {r : Request} {es : Entries} {reply : Reply} (hr : r.reads = true)
    (h : (carryOut now r es).1 = .ok reply) : reply = .value (found? now es r) := by
  cases r with
  | get name =>
    cases hv : (getText now name es).1 with
    | error e => simp [carryOut, hv, Except.map] at h
    | ok v =>
      simp only [carryOut, hv, Except.map, Except.ok.injEq] at h
      rw [← h, eq_text?_of_getText hv, found?]
  | item name index =>
    cases hv : (getItem now name index es).1 with
    | error e => simp [carryOut, hv, Except.map] at h
    | ok v =>
      simp only [carryOut, hv, Except.map, Except.ok.injEq] at h
      rw [← h, eq_found?_of_getItem hv]
  | setIfAbsent | delete | addNames => cases hr

/-- A batch that reads has no effect on what it reads, so each reply is about the same entries. -/
theorem replies_of_reads {l : List Request} {es : Entries} {replies : List Reply}
    (hl : ∀ r ∈ l, r.reads = true) (h : (carryOutAll now l es).1 = .ok replies) :
    replies = l.map fun r ↦ .value (found? now es r) := by
  induction l generalizing es replies with
  | nil => simpa [carryOutAll] using h.symm
  | cons r rest ih =>
    have hr := hl r List.mem_cons_self
    have hrest : ∀ r ∈ rest, r.reads = true := fun r hr ↦ hl r (List.mem_cons_of_mem _ hr)
    have hlive := @live?_carryOut_of_reads now r hr es
    rcases hreply : carryOut now r es with ⟨_ | reply, es₁⟩
    · rw [carryOutAll_cons_of_error hreply] at h
      cases h
    · rw [hreply] at hlive
      rw [carryOutAll_cons_of_ok hreply] at h
      rcases hmore : (carryOutAll now rest es₁).1 with _ | more
      · simp [hmore, Except.map] at h
      · simp only [hmore, Except.map, Except.ok.injEq] at h
        rw [← h, ih hrest hmore, eq_value_of_carryOut hr (congrArg Prod.fst hreply)]
        simp only [found?_congr hlive, List.map_cons]

theorem carryOutAll_of_readable {l : List Request} {es : Entries}
    (h : ∀ r ∈ l, Readable now es r) :
    (carryOutAll now l es).1 = .ok (l.map fun r ↦ .value (found? now es r)) := by
  induction l generalizing es with
  | nil => rfl
  | cons r rest ih =>
    have hr := h r List.mem_cons_self
    have hlive := @live?_carryOut_of_reads now r hr.reads es
    have hrest : ∀ r' ∈ rest, Readable now (carryOut now r es).2 r' := fun r' hr' ↦
      (readable_congr hlive r').mpr (h r' (List.mem_cons_of_mem _ hr'))
    have hfirst : carryOut now r es = (.ok (.value (found? now es r)), (carryOut now r es).2) :=
      Prod.ext (carryOut_of_readable hr) rfl
    rw [carryOutAll_cons_of_ok hfirst, ih hrest]
    simp only [Except.map, found?_congr hlive, List.map_cons]

/-- No text that is live at the instant is lost or overwritten. -/
def KeepsTexts (now : Instant) (es es' : Entries) : Prop :=
  ∀ name s x, es.live? now name = some ⟨.text s, x⟩ → es'.live? now name = some ⟨.text s, x⟩

theorem KeepsTexts.refl (es : Entries) : KeepsTexts now es es :=
  fun _ _ _ he ↦ he

theorem KeepsTexts.trans {es es' es'' : Entries} (h : KeepsTexts now es es')
    (h' : KeepsTexts now es' es'') : KeepsTexts now es es'' :=
  fun name s x he ↦ h' name s x (h name s x he)

theorem keepsTexts_of_live?_eq {es es' : Entries}
    (h : ∀ other, live? now other es' = es.live? now other) : KeepsTexts now es es' :=
  fun name _ _ he ↦ (h name).trans he

theorem keepsTexts_addNames (name : String) (names : List String) (ttl : Duration) (es : Entries) :
    KeepsTexts now es (addNames now name names ttl es).2 := by
  intro other s x he
  rw [live?_addNames]
  by_cases h : name = other
  · rw [if_pos h, h, he, joined_text]
  · rw [if_neg h, he]

theorem keepsTexts_carryOut {r : Request} (hr : r.deletes = false) (es : Entries) :
    KeepsTexts now es (carryOut now r es).2 := by
  cases r with
  | setIfAbsent name value ttl =>
    intro other s x he
    rw [carryOut, live?_setIfAbsent]
    by_cases h : name = other
    · rw [if_pos h, h, he, Option.getD_some]
    · rw [if_neg h, he]
  | get | item => exact keepsTexts_of_live?_eq (live?_carryOut_of_reads rfl es)
  | delete => cases hr
  | addNames name names ttl => exact keepsTexts_addNames name names ttl es

theorem keepsTexts_carryOutAll {l : List Request} (hl : ∀ r ∈ l, r.deletes = false)
    (es : Entries) : KeepsTexts now es (carryOutAll now l es).2 :=
  carryOutAll_induct .refl .trans (fun r hr es ↦ keepsTexts_carryOut (hl r hr) es) es

theorem keepsTexts_advance {list configs : String} (hne : list ≠ configs)
    (location offset ttl config : String) (es : Entries) :
    KeepsTexts now es (advance now [list, configs] [location, offset, ttl, config] es).2 := by
  rcases @live?_advance now list configs hne location offset ttl config es with
    h | ⟨o, millis, -, h⟩
  · exact keepsTexts_of_live?_eq h
  · intro other s x he
    rw [h]
    by_cases hl : list = other
    · rw [if_pos hl, hl, he, raised_text]
    · by_cases hc : configs = other
      · rw [if_neg hl, if_pos hc, hc, he, joined_text]
      · rw [if_neg hl, if_neg hc, he]

end Entries

end UniqueJobs
