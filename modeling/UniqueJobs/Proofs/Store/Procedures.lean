import UniqueJobs.Proofs.Store.Live

/-!
The two procedures of the store and the sets of names they keep, by what they do to live entries.
Main statements: `live?_advance`, that an advance either changes nothing or raises one list and lets
one name join one set, both for the same time; and `release_of_registered_eq_some`, which names what
a release deletes.
-/

namespace UniqueJobs

namespace Dictionary

variable {α : Type}

theorem mem_keys_iff (d : Dictionary α) (name : String) :
    name ∈ d.keys ↔ d.contains name = true := by
  rw [keys, contains, List.mem_map, Option.isSome_iff_exists]
  constructor
  · intro h
    obtain ⟨e, he, rfl⟩ := h
    exact ⟨e.2, (d.get?_eq_some_iff e.1 e.2).mpr he⟩
  · intro h
    obtain ⟨v, hv⟩ := h
    exact ⟨(name, v), (d.get?_eq_some_iff name v).mp hv, rfl⟩

end Dictionary

namespace NameSet

theorem contains_add (set : NameSet) (name other : String) :
    (set.add name).contains other = true ↔ other = name ∨ set.contains other = true := by
  rw [add, Dictionary.contains, Dictionary.get?_insert]
  by_cases h : name = other
  · simp [h]
  · have hother : other ≠ name := Ne.symm h
    simp only [if_neg h, hother, false_or, Dictionary.contains]

theorem contains_addAll (set : NameSet) (names : List String) (other : String) :
    (set.addAll names).contains other = true ↔ other ∈ names ∨ set.contains other = true := by
  induction names generalizing set with
  | nil => simp [addAll]
  | cons name rest ih =>
    change ((set.add name).addAll rest).contains other = true ↔ _
    rw [ih, contains_add, List.mem_cons, or_left_comm, or_assoc]

theorem contains_ofNames (names : List String) (other : String) :
    (ofNames names).contains other = true ↔ other ∈ names := by
  rw [ofNames, contains_addAll]
  simp [Dictionary.contains]

theorem contains_addNew (set : NameSet) (names : List String) (other : String) :
    (Entries.addNew names set).2.contains other = true ↔
      other ∈ names ∨ set.contains other = true := by
  induction names generalizing set with
  | nil => simp [Entries.addNew]
  | cons name rest ih =>
    by_cases hc : set.contains name = true
    · have hname : other = name → set.contains other = true := by
        intro h
        rwa [h]
      rw [Entries.addNew, if_pos hc, ih, List.mem_cons, or_assoc]
      exact (or_iff_right_of_imp fun h ↦ .inr (hname h)).symm
    · rw [Entries.addNew, if_neg hc, ih, contains_add, List.mem_cons, or_left_comm, or_assoc]

end NameSet

namespace Entries

variable {now : Instant}

/-- The entry of a set that names join, which lasts until `expiry` at least. -/
def joined (names : List String) (expiry : Option Instant) : Option Entry → Option Entry
  | none => some ⟨.names (.ofNames names), expiry⟩
  | some ⟨.names set, x⟩ => some ⟨.names (addNew names set).2, laterExpiry x expiry⟩
  | some e => some e

theorem joined_text (names : List String) (expiry : Option Instant) (s : String)
    (x : Option Instant) : joined names expiry (some ⟨.text s, x⟩) = some ⟨.text s, x⟩ := rfl

theorem addNames_fst (name : String) (names : List String) (ttl : Duration) (es : Entries) :
    (addNames now name names ttl es).1 =
      match es.live? now name with
      | none => .ok (NameSet.ofNames names).size
      | some ⟨.names set, _⟩ => .ok (addNew names set).1
      | some _ => .error (.wrongType name) := by
  simp only [addNames, get?_purge]
  rcases es.live? now name with _ | ⟨_ | _ | _, _⟩ <;> rfl

theorem live?_addNames (name : String) (names : List String) (ttl : Duration) (es : Entries)
    (other : String) :
    live? now other (addNames now name names ttl es).2 =
      if name = other then joined names (deadline now ttl) (es.live? now name)
      else es.live? now other := by
  simp only [addNames, get?_purge]
  rcases h : es.live? now name with _ | ⟨_ | _ | set, x⟩
  · rw [live?_insert (isLive_deadline_self _ now ttl), live?_purge]
    rfl
  · simp only [live?_purge, joined]
    exact live?_eq_ite h other
  · simp only [live?_purge, joined]
    exact live?_eq_ite h other
  · have hx : Entry.isLive ⟨.names (addNew names set).2, laterExpiry x (deadline now ttl)⟩ now :=
      isLive_laterExpiry (isLive_of_live? h)
    simp only [live?_insert hx, live?_purge]
    rfl

def storedOffset? (items : List String) : Option Int64 :=
  items.getLast?.bind fun s ↦ (Text.readInt64 s.toList).toOption

def raised (location : String) (offset : Int64) (expiry : Option Instant) :
    Option Entry → Option Entry
  | none => some ⟨.list [location, toString offset.toInt], expiry⟩
  | some ⟨.list items, x⟩ =>
    match storedOffset? items with
    | none => some ⟨.list items, x⟩
    | some current =>
      if current < offset then some ⟨.list [location, toString offset.toInt], x⟩
      else some ⟨.list items, x⟩
  | some e => some e

theorem raised_text (location : String) (offset : Int64) (expiry : Option Instant) (s : String)
    (x : Option Instant) : raised location offset expiry (some ⟨.text s, x⟩) = some ⟨.text s, x⟩ :=
  rfl

theorem raised_list (location : String) (offset : Int64) (expiry : Option Instant)
    (items : List String) (x : Option Instant) :
    raised location offset expiry (some ⟨.list items, x⟩) =
      match storedOffset? items with
      | none => some ⟨.list items, x⟩
      | some current =>
        if current < offset then some ⟨.list [location, toString offset.toInt], x⟩
        else some ⟨.list items, x⟩ := rfl

theorem live?_raise (name location : String) (offset : Int64) (ttl : Duration) (es : Entries)
    (other : String) :
    live? now other (raise now name location offset ttl es).2 =
      if name = other then raised location offset (deadline now ttl) (es.live? now name)
      else es.live? now other := by
  simp only [raise, get?_purge]
  rcases h : es.live? now name with _ | ⟨_ | items | _, x⟩
  · rw [live?_insert (isLive_deadline_self _ now ttl), live?_purge]
    rfl
  · simp only [live?_purge, raised]
    exact live?_eq_ite h other
  · simp only [raised, storedOffset?]
    rcases items.getLast?.bind fun s ↦ (Text.readInt64 s.toList).toOption with _ | current
    · simp only [live?_purge]
      exact live?_eq_ite h other
    · by_cases hlt : current < offset
      · -- Only the text is replaced: the list expires when it was to expire.
        have hx : Entry.isLive ⟨.list [location, toString offset.toInt], x⟩ now = true :=
          isLive_of_live? (e := ⟨.list items, x⟩) h
        simp only [if_pos hlt]
        rw [live?_insert hx, live?_purge]
      · simp only [if_neg hlt, live?_purge]
        exact live?_eq_ite h other
  · simp only [live?_purge, raised]
    exact live?_eq_ite h other

theorem live?_raise_of_error {name location : String} {offset : Int64} {ttl : Duration}
    {es : Entries} {e : StoreError} (h : (raise now name location offset ttl es).1 = .error e)
    (other : String) :
    live? now other (raise now name location offset ttl es).2 = es.live? now other := by
  simp only [raise, get?_purge] at h ⊢
  generalize es.live? now name = found at h ⊢
  rcases found with _ | ⟨_ | items | _, x⟩
  · simp at h
  · exact live?_purge name other es
  · simp only at h ⊢
    generalize (items.getLast?.bind fun s ↦ (Text.readInt64 s.toList).toOption) = stored at h ⊢
    rcases stored with _ | current
    · exact live?_purge name other es
    · simp only at h
      split at h <;> simp at h
  · exact live?_purge name other es

/-- An advance either changes nothing or lets the location be offered to the list and its config
join the set, both for the time that it is told. -/
theorem live?_advance {list configs : String} (hne : list ≠ configs)
    (location offset ttl config : String) (es : Entries) :
    (∀ other, live? now other (advance now [list, configs] [location, offset, ttl, config] es).2 =
      es.live? now other) ∨
    ∃ (o : Int64) (millis : Nat), Text.readNat 10 (UInt64.size - 1) ttl.toList = .ok millis ∧
      ∀ other, live? now other
          (advance now [list, configs] [location, offset, ttl, config] es).2 =
        if list = other then
          raised location o (deadline now (.ofMillis millis)) (es.live? now list)
        else if configs = other then
          joined [config] (deadline now (.ofMillis millis)) (es.live? now configs)
        else es.live? now other := by
  cases ho : Text.readInt64 offset.toList with
  | error f => exact .inl fun _ ↦ by simp only [advance, ho]
  | ok o =>
    cases hd : Text.readNat 10 (UInt64.size - 1) ttl.toList with
    | error f => exact .inl fun _ ↦ by simp only [advance, ho, hd]
    | ok millis =>
      rcases h : raise now list location o (.ofMillis millis) es with ⟨e | u, es'⟩
      · refine .inl fun other ↦ ?_
        have hr := live?_raise_of_error (congrArg Prod.fst h) other
        simpa only [advance, ho, hd, h] using hr
      · refine .inr ⟨o, millis, rfl, fun other ↦ ?_⟩
        have hr := @live?_raise now list location o (.ofMillis millis) es
        simp only [h] at hr
        simp only [advance, ho, hd, h, live?_addNames, hr, hne, ↓reduceIte]
        by_cases hc : configs = other
        · subst hc
          simp [hne]
        · simp [hc]

/-- The configs that a release finds in the store, unless what is under their name is no set. -/
def registered : Option Entry → Option NameSet
  | none => some .empty
  | some ⟨.names set, _⟩ => some set
  | some _ => none

/-- The names that a release deletes where it finds a set of configs. -/
def doomed (key flag configs : String) (args : List String) (set : NameSet) : List String :=
  [key, flag, configs] ++ (NameSet.addAll set args).keys.flatMap (positionKeys key)

theorem mem_doomed {key flag configs : String} {args : List String} {set : NameSet}
    {other : String} :
    other ∈ doomed key flag configs args set ↔ other ∈ [key, flag, configs] ∨
      ∃ c, (c ∈ args ∨ set.contains c = true) ∧ other ∈ positionKeys key c := by
  simp only [doomed, List.mem_append, List.mem_flatMap, Dictionary.mem_keys_iff,
    NameSet.contains_addAll]

theorem release_of_registered_eq_none {key flag configs : String} {args : List String} {es : Entries}
    (h : registered (es.live? now configs) = none) :
    (release now [key, flag, configs] args es).1 = .error (.wrongType configs) ∧
      ∀ other, live? now other (release now [key, flag, configs] args es).2 =
        es.live? now other := by
  simp only [release, get?_purge]
  rcases hl : es.live? now configs with _ | ⟨_ | _ | set, x⟩
  · simp [hl, registered] at h
  · exact ⟨rfl, fun other ↦ live?_purge configs other es⟩
  · exact ⟨rfl, fun other ↦ live?_purge configs other es⟩
  · simp [hl, registered] at h

theorem release_of_registered_eq_some (key flag : String) {configs : String} (args : List String)
    {es : Entries} {set : NameSet} (h : registered (es.live? now configs) = some set) :
    (release now [key, flag, configs] args es).1 = .ok () ∧
      ∀ other, live? now other (release now [key, flag, configs] args es).2 =
        if other ∈ doomed key flag configs args set then none else es.live? now other := by
  have hdeleted : ∀ other,
      live? now other (delete now (doomed key flag configs args set) (es.purge now configs)).2 =
        if other ∈ doomed key flag configs args set then none else es.live? now other := by
    intro other
    rw [live?_delete, live?_purge]
  simp only [release, get?_purge]
  rcases hl : es.live? now configs with _ | ⟨_ | _ | found, x⟩
  · simp only [hl, registered, Option.some.injEq] at h
    subst h
    exact ⟨rfl, hdeleted⟩
  · simp [hl, registered] at h
  · simp [hl, registered] at h
  · simp only [hl, registered, Option.some.injEq] at h
    subst h
    exact ⟨rfl, hdeleted⟩

theorem release_fst (key flag configs : String) (args : List String) (es : Entries) :
    (release now [key, flag, configs] args es).1 =
      match registered (es.live? now configs) with
      | none => .error (.wrongType configs)
      | some _ => .ok () := by
  cases hset : registered (es.live? now configs) with
  | none => exact (release_of_registered_eq_none hset).1
  | some set => exact (release_of_registered_eq_some key flag args hset).1

theorem live?_release (key flag configs : String) (args : List String) (es : Entries)
    (other : String) :
    live? now other (release now [key, flag, configs] args es).2 =
      match registered (es.live? now configs) with
      | none => es.live? now other
      | some set =>
        if other ∈ doomed key flag configs args set then none else es.live? now other := by
  cases hset : registered (es.live? now configs) with
  | none => exact (release_of_registered_eq_none hset).2 other
  | some set => exact (release_of_registered_eq_some key flag args hset).2 other

/-- A release that fails has changed nothing, whatever it was given. -/
theorem live?_release_of_error {keys args : List String} {es : Entries} {error : StoreError}
    (h : (release now keys args es).1 = .error error) (other : String) :
    live? now other (release now keys args es).2 = es.live? now other := by
  rcases keys with _ | ⟨key, _ | ⟨flag, _ | ⟨configs, _ | ⟨fourth, rest⟩⟩⟩⟩
  case cons.cons.cons.nil =>
    cases hset : registered (es.live? now configs) with
    | none => exact (release_of_registered_eq_none hset).2 other
    | some set =>
      rw [(release_of_registered_eq_some key flag args hset).1] at h
      cases h
  all_goals rfl

end Entries

end UniqueJobs
