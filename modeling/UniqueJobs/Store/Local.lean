import UniqueJobs.Dictionary
import UniqueJobs.Store.Basic

/-!
A store of records inside one process. An entry is live before its expiry; one that has expired is
dropped when a call touches its key, and no call can tell it from one that never was.
-/

namespace UniqueJobs

inductive Content
  | text (s : String)
  | list (items : List String)
  | names (set : NameSet)
  deriving DecidableEq

structure Entry where
  content : Content
  /-- Absent for an entry that never expires. -/
  expiresAt : Option Instant
  deriving DecidableEq

def Entry.isLive (e : Entry) (now : Instant) : Bool :=
  match e.expiresAt with
  | some t => now.nanos < t.nanos
  | none => true

abbrev Entries := Dictionary Entry

def minTtl : Duration := .ofMillis 1

/-- When an entry written now expires: never, if the clock ends before. -/
def deadline (now : Instant) (ttl : Duration) : Option Instant :=
  now.after? (if ttl.nanos < minTtl.nanos then minTtl else ttl)

def laterExpiry : Option Instant → Option Instant → Option Instant
  | some a, some b => some (if a.nanos < b.nanos then b else a)
  | _, _ => none

namespace Entries

def purge (now : Instant) (key : String) (es : Entries) : Entries :=
  match es.get? key with
  | some e => if e.isLive now then es else es.erase key
  | none => es

def live? (now : Instant) (key : String) (es : Entries) : Option Entry :=
  (es.get? key).filter (·.isLive now)

theorem get?_purge (now : Instant) (key : String) (es : Entries) :
    (es.purge now key).get? key = es.live? now key := by
  unfold purge live?
  cases h : es.get? key with
  | none => simp [h]
  | some e => cases hl : e.isLive now <;> simp [hl, h, Option.filter]

variable (now : Instant)

def getText (key : String) (es : Entries) : Except StoreError (Option String) × Entries :=
  let es := es.purge now key
  match es.get? key with
  | none => (.ok none, es)
  | some ⟨.text s, _⟩ => (.ok (some s), es)
  | some _ => (.error (.wrongType key), es)

def setIfAbsent (key value : String) (ttl : Duration) (es : Entries) : Bool × Entries :=
  let es := es.purge now key
  match es.get? key with
  | some _ => (false, es)
  | none => (true, es.insert key ⟨.text value, deadline now ttl⟩)

/-- How many of the names are not in the set, each name counted once, and the set with all. -/
def addNew : List String → NameSet → Nat × NameSet
  | [], set => (0, set)
  | name :: rest, set =>
    if set.contains name then addNew rest set
    else
      let (n, set) := addNew rest (set.add name)
      (n + 1, set)

/-- Add names to a set, which is made if need be. Its expiry is only ever put off. -/
def addNames (key : String) (names : List String) (ttl : Duration) (es : Entries) :
    Except StoreError Nat × Entries :=
  let es := es.purge now key
  match es.get? key with
  | none =>
    let set := NameSet.ofNames names
    (.ok set.size, es.insert key ⟨.names set, deadline now ttl⟩)
  | some ⟨.names set, expiresAt⟩ =>
    let (added, set) := addNew names set
    (.ok added, es.insert key ⟨.names set, laterExpiry expiresAt (deadline now ttl)⟩)
  | some _ => (.error (.wrongType key), es)

/-- The item of a list at an index, which counts from the end if it is negative. -/
def itemAt? (items : List String) (index : Int) : Option String :=
  let i := if index < 0 then items.length + index else index
  if 0 ≤ i then items[i.toNat]? else none

def getItem (key : String) (index : Int) (es : Entries) :
    Except StoreError (Option String) × Entries :=
  let es := es.purge now key
  match es.get? key with
  | none => (.ok none, es)
  | some ⟨.list items, _⟩ => (.ok (itemAt? items index), es)
  | some _ => (.error (.wrongType key), es)

def delete : List String → Entries → Nat × Entries
  | [], es => (0, es)
  | key :: rest, es =>
    let es := es.purge now key
    match es.get? key with
    | none => delete rest es
    | some _ =>
      let (n, es) := delete rest (es.erase key)
      (n + 1, es)

def carryOut (r : Request) (es : Entries) : Except StoreError Reply × Entries :=
  match r with
  | .setIfAbsent key value ttl =>
    let (written, es) := setIfAbsent now key value ttl es
    (.ok (.set written), es)
  | .get key =>
    let (v, es) := getText now key es
    (v.map .value, es)
  | .item key index =>
    let (v, es) := getItem now key index es
    (v.map .value, es)
  | .delete keys =>
    let (n, es) := delete now keys es
    (.ok (.deleted n), es)
  | .addNames key names ttl =>
    let (n, es) := addNames now key names ttl es
    (n.map .added, es)

/-- Carry out requests in order up to the first that fails; what was done stays done. -/
def carryOutAll : List Request → Entries → Except StoreError (List Reply) × Entries
  | [], es => (.ok [], es)
  | r :: rest, es =>
    match carryOut now r es with
    | (.error e, es) => (.error e, es)
    | (.ok reply, es) =>
      match carryOutAll rest es with
      | (.error e, es) => (.error e, es)
      | (.ok replies, es) => (.ok (reply :: replies), es)

theorem carryOutAll_cons_of_error {now : Instant} {r : Request} {es es₁ : Entries} {e : StoreError}
    (h : carryOut now r es = (.error e, es₁)) (rest : List Request) :
    carryOutAll now (r :: rest) es = (.error e, es₁) := by
  simp only [carryOutAll, h]

/-- Keep the location under a key if its offset is greater than the one kept there. -/
def raise (key location : String) (offset : Int64) (ttl : Duration) (es : Entries) :
    Except StoreError Unit × Entries :=
  let es := es.purge now key
  match es.get? key with
  | none =>
    (.ok (), es.insert key ⟨.list [location, toString offset.toInt], deadline now ttl⟩)
  | some ⟨.list items, expiresAt⟩ =>
    match items.getLast?.bind fun s ↦ (Text.readInt64 s.toList).toOption with
    | none => (.error (.script (.storedOffset key)), es)
    | some current =>
      if current < offset then
        (.ok (), es.insert key ⟨.list [location, toString offset.toInt], expiresAt⟩)
      else (.ok (), es)
  | some _ => (.error (.wrongType key), es)

def advance (keys args : List String) (es : Entries) : Except StoreError Unit × Entries :=
  match keys with
  | [key, configs] =>
    match args with
    | [location, offset, ttl, config] =>
      match Text.readInt64 offset.toList with
      | .error f => (.error (.script (.offset offset f)), es)
      | .ok offset =>
        match Text.readNat 10 (UInt64.size - 1) ttl.toList with
        | .error f => (.error (.script (.ttl ttl f)), es)
        | .ok millis =>
          match raise now key location offset (.ofMillis millis) es with
          | (.error e, es) => (.error e, es)
          | (.ok (), es) =>
            let (added, es) := addNames now configs [config] (.ofMillis millis) es
            (added.map fun _ ↦ (), es)
    | _ => (.error (.script (.argumentCount 4 args.length)), es)
  | _ => (.error (.script (.keyCount 2 keys.length)), es)

def positionKeys (key config : String) : List String :=
  [key ++ ":" ++ config ++ ":existing_wal_location", key ++ ":" ++ config ++ ":wal_location"]

def release (keys args : List String) (es : Entries) : Except StoreError Unit × Entries :=
  match keys with
  | [key, flag, configs] =>
    let es := es.purge now configs
    let doomed (set : NameSet) :=
      [key, flag, configs] ++ (NameSet.addAll set args).keys.flatMap (positionKeys key)
    match es.get? configs with
    | none => (.ok (), (delete now (doomed .empty) es).2)
    | some ⟨.names set, _⟩ => (.ok (), (delete now (doomed set) es).2)
    | some _ => (.error (.wrongType configs), es)
  | _ => (.error (.script (.keyCount 3 keys.length)), es)

def runProcedure (p : Procedure) (keys args : List String) (es : Entries) :
    Except StoreError Unit × Entries :=
  match p with
  | .advance => advance now keys args es
  | .release => release now keys args es

end Entries

structure LocalStore where
  entries : Entries
  available : Bool
  deriving DecidableEq

namespace LocalStore

def empty : LocalStore := ⟨.empty, true⟩

instance : Inhabited LocalStore := ⟨empty⟩

def setAvailable (s : LocalStore) (available : Bool) : LocalStore := { s with available }

/-- A call of the store: refused with no effect while it is switched off. -/
def call {α : Type} (f : Entries → Except StoreError α × Entries) (s : LocalStore) :
    Except StoreError α × LocalStore :=
  if s.available then
    let (r, es) := f s.entries
    (r, { s with entries := es })
  else (.error (.unavailable .switchedOff), s)

/-- The live entry under a key, none while the store is switched off. -/
def live? (s : LocalStore) (now : Instant) (key : String) : Option Entry :=
  if s.available then s.entries.live? now key else none

def contains (s : LocalStore) (now : Instant) (key : String) : Bool := (s.live? now key).isSome

/-- The number of live entries, none while the store is switched off. -/
def size (s : LocalStore) (now : Instant) : Nat :=
  if s.available then s.entries.entries.countP fun e ↦ e.2.isLive now else 0

def isEmpty (s : LocalStore) (now : Instant) : Bool := s.size now = 0

/-- The time that a live entry has left, if it is to expire. -/
def ttl? (s : LocalStore) (now : Instant) (key : String) : Option Duration :=
  (s.live? now key).bind fun e ↦ e.expiresAt.map (·.remaining now)

/-- The store as seen from a monad that has a clock and keeps it in its state. -/
def toRecordStore {m : Type → Type} [Monad m] (now : m Instant)
    (update : {α : Type} → (LocalStore → α × LocalStore) → m α) : RecordStore m where
  get key := do
    let t ← now
    update (call (Entries.getText t key))
  setIfAbsent key value ttl := do
    let t ← now
    update (call fun es ↦ let (written, es) := Entries.setIfAbsent t key value ttl es
      (.ok written, es))
  delete keys := do
    let t ← now
    update (call fun es ↦ let (n, es) := Entries.delete t keys es; (.ok n, es))
  batch requests := do
    let t ← now
    update (call (Entries.carryOutAll t requests))
  run procedure keys args := do
    let t ← now
    update (call (Entries.runProcedure t procedure keys args))

end LocalStore

end UniqueJobs
