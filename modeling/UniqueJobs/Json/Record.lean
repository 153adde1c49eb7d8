import UniqueJobs.Time

/-!
Reading records from documents. A record is an object, of which unknown members are passed over and
a known one may stand but once, or the array of its fields in order, of which the last may be
missing. Whether a missing field matters is up to the field.
-/

namespace UniqueJobs.Json

abbrev Fields := Dictionary Json

def hasRepeats : List String → Bool
  | [] => false
  | name :: rest => rest.contains name || hasRepeats rest

/-- The fields that a document gives to a record of these field names. -/
def fields? (names : List String) : Json → Option Fields
  | .object members =>
    let known := members.filter fun e ↦ names.contains e.1
    if hasRepeats (known.map (·.1)) then none else some (Dictionary.ofList known)
  | .array items =>
    if items.length ≤ names.length then some (Dictionary.ofList (names.zip items)) else none
  | _ => none

/-- The fields of a record that may have no others. -/
def onlyFields? (names : List String) : Json → Option Fields
  | .object members =>
    if members.all fun e ↦ names.contains e.1 then fields? names (.object members) else none
  | j => fields? names j

def Fields.get {α : Type} (f : Fields) (name : String) (read : Json → Option α) : Option α :=
  (f.get? name).bind read

def Fields.getD {α : Type} (f : Fields) (name : String) (read : Json → Option α) (missing : α) :
    Option α :=
  match f.get? name with
  | some j => read j
  | none => some missing

def text? : Json → Option String
  | .string s => some s
  | _ => none

def bool? : Json → Option Bool
  | .bool b => some b
  | _ => none

def whole? : Json → Option Int
  | .number (.whole n _) => some n
  | _ => none

/-- A whole number from zero to below a bound. -/
def natBelow? (bound : Nat) (j : Json) : Option Nat :=
  match whole? j with
  | some n => if 0 ≤ n ∧ n.toNat < bound then some n.toNat else none
  | none => none

def optional? {α : Type} (read : Json → Option α) : Json → Option (Option α)
  | .null => some none
  | j => (read j).map some

def values? : Json → Option (List Value)
  | .array items => items.mapM Value.ofJson?
  | _ => none

/-- An object whose values are texts. Of one name the last stays. -/
def texts? : Json → Option (Dictionary String)
  | .object members =>
    (members.mapM fun e : String × Json ↦ (text? e.2).map fun s ↦ (e.1, s)).map Dictionary.ofList
  | _ => none

/-- The name of a choice: the name alone, or an object that binds it to null. -/
def choice? : Json → Option String
  | .string s => some s
  | .object [(name, .null)] => some name
  | _ => none

/-- A length of time is the record of its seconds and nanoseconds, both given and nothing else. A
second or more of nanoseconds is carried over. -/
def duration? (j : Json) : Option Duration := do
  let f ← onlyFields? ["secs", "nanos"] j
  let secs ← f.get "secs" (natBelow? UInt64.size)
  let nanos ← f.get "nanos" (natBelow? UInt32.size)
  Duration.ofNanos? (secs * 1_000_000_000 + nanos)

theorem whole?_int {n : Int} (h : IsWord n) : whole? (int n) = some n := by
  rw [int, dif_pos h, whole?]

theorem natBelow?_int {n bound : Nat} (h : n < bound) (hb : bound ≤ UInt64.size) :
    natBelow? bound (int n) = some n := by
  rw [natBelow?, whole?_int ⟨by omega, by omega⟩]
  exact if_pos ⟨Int.natCast_nonneg n, h⟩

theorem optional?_getD_null {α : Type} {read : Json → Option α} {write : α → Json}
    (h : ∀ a, read (write a) = some a) (hn : ∀ a, write a ≠ .null) (v : Option α) :
    optional? read ((v.map write).getD .null) = some v := by
  cases v with
  | none => rfl
  | some a =>
    have ha := h a
    have hna := hn a
    simp only [Option.map_some, Option.getD_some]
    cases hw : write a <;> simp_all [optional?]

theorem duration?_object (secs nanos : Json) :
    duration? (.object [("secs", secs), ("nanos", nanos)]) =
      (natBelow? UInt64.size secs).bind fun s ↦ (natBelow? UInt32.size nanos).bind fun n ↦
        Duration.ofNanos? (s * 1_000_000_000 + n) := by
  simp [duration?, onlyFields?, fields?, hasRepeats, Dictionary.ofList, Fields.get]

theorem duration?_toJson (d : Duration) : duration? d.toJson = some d := by
  have hn := Nat.lt_trans d.subsec_lt (by decide : 1_000_000_000 < UInt32.size)
  rw [Duration.toJson, duration?_object, natBelow?_int d.secs_lt (by decide),
    natBelow?_int hn (by decide)]
  rw [Option.bind_some, Option.bind_some, d.secs_subsec, Duration.ofNanos?_nanos]

def timestamp? (j : Json) : Option Timestamp := (whole? j).bind Timestamp.ofSecs?

def ofTexts (d : Dictionary String) : Json := .object (d.entries.map fun e ↦ (e.1, .string e.2))

end UniqueJobs.Json
