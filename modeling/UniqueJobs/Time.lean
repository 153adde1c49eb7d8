import UniqueJobs.Json.Basic

/-!
Three kinds of time, all to the nanosecond. A `Duration` is a length of time, a `Timestamp` a date of
the calendar, an `Instant` a reading of the clock that expiries go by. That clock has neither the
limits of the calendar nor its leap seconds.
-/

namespace UniqueJobs

/-- Where lengths of time end: `2 ^ 64` seconds, in nanoseconds. -/
def Duration.limit : Nat := UInt64.size * 1_000_000_000

/-- A length of time with fewer than `2 ^ 64` whole seconds. -/
structure Duration where
  nanos : Nat
  fits : nanos < Duration.limit
  deriving DecidableEq

namespace Duration

def zero : Duration := ⟨0, by decide⟩

instance : Inhabited Duration := ⟨zero⟩

def longest : Duration := ⟨limit - 1, by decide⟩

/-- The length of so many nanoseconds, if there is one. -/
def ofNanos? (n : Nat) : Option Duration := if h : n < limit then some ⟨n, h⟩ else none

/-- The length of so many nanoseconds, or the longest one. -/
def ofNanos (n : Nat) : Duration := (ofNanos? n).getD longest

def ofMillis (n : Nat) : Duration := ofNanos (n * 1_000_000)

def ofSecs (n : Nat) : Duration := ofNanos (n * 1_000_000_000)

def secs (d : Duration) : Nat := d.nanos / 1_000_000_000

def subsec (d : Duration) : Nat := d.nanos % 1_000_000_000

def millis (d : Duration) : Nat := d.nanos / 1_000_000

def isZero (d : Duration) : Bool := d.nanos = 0

def add (a b : Duration) : Duration := ofNanos (a.nanos + b.nanos)

@[simp] theorem nanos_ofNanos (n : Nat) : (ofNanos n).nanos = min n (limit - 1) := by
  unfold ofNanos ofNanos?
  split
  · simp only [Option.getD_some]; omega
  · simp only [Option.getD_none, longest]; omega

@[simp] theorem ofNanos?_nanos (d : Duration) : ofNanos? d.nanos = some d := dif_pos d.fits

theorem secs_lt (d : Duration) : d.secs < UInt64.size :=
  Nat.div_lt_of_lt_mul (Nat.mul_comm _ _ ▸ d.fits)

theorem subsec_lt (d : Duration) : d.subsec < 1_000_000_000 := Nat.mod_lt _ (by decide)

theorem secs_subsec (d : Duration) : d.secs * 1_000_000_000 + d.subsec = d.nanos :=
  Nat.div_add_mod' ..

def toJson (d : Duration) : Json := .object [("secs", .int d.secs), ("nanos", .int d.subsec)]

end Duration

def Timestamp.InCalendar (secs : Int) : Prop :=
  -8_334_601_228_800 ≤ secs ∧ secs < 8_210_266_876_800

instance (secs : Int) : Decidable (Timestamp.InCalendar secs) :=
  inferInstanceAs (Decidable (_ ∧ _))

/-- The nanoseconds of a second. A leap second may follow the last one of a minute, whose nanoseconds
then go on to twice their number. -/
def Timestamp.InSecond (secs : Int) (subsec : Nat) : Prop :=
  subsec < 1_000_000_000 ∨ (secs % 60 = 59 ∧ subsec < 2_000_000_000)

instance (secs : Int) (subsec : Nat) : Decidable (Timestamp.InSecond secs subsec) :=
  inferInstanceAs (Decidable (_ ∨ _))

/-- A date of the calendar. -/
structure Timestamp where
  /-- Whole seconds since 1970 began, at or before the date. -/
  secs : Int
  /-- Nanoseconds past the last whole second. -/
  subsec : Nat
  inCalendar : Timestamp.InCalendar secs
  inSecond : Timestamp.InSecond secs subsec
  deriving DecidableEq

namespace Timestamp

/-- The date of a second and the nanoseconds past it, if there is one. -/
def ofParts? (secs : Int) (subsec : Nat) : Option Timestamp :=
  if h : InCalendar secs ∧ InSecond secs subsec then some ⟨secs, subsec, h.1, h.2⟩ else none

@[simp] theorem ofParts?_secs_subsec (t : Timestamp) : ofParts? t.secs t.subsec = some t :=
  dif_pos ⟨t.inCalendar, t.inSecond⟩

/-- The date of so many nanoseconds since 1970 began, leap seconds not counting. -/
def ofNanos? (n : Int) : Option Timestamp :=
  ofParts? (n / 1_000_000_000) (n % 1_000_000_000).toNat

def ofSecs? (n : Int) : Option Timestamp := ofParts? n 0

def isLeap (t : Timestamp) : Bool := 1_000_000_000 ≤ t.subsec

/-- Nanoseconds since 1970 began, a leap second going at the same time as the second after it. -/
def nanos (t : Timestamp) : Int := t.secs * 1_000_000_000 + t.subsec

theorem ofNanos?_nanos {t : Timestamp} (h : t.isLeap = false) : ofNanos? t.nanos = some t := by
  have h' : t.subsec < 1_000_000_000 := by simpa [isLeap] using h
  have hs : t.nanos / 1_000_000_000 = t.secs := by unfold nanos; omega
  have hn : (t.nanos % 1_000_000_000).toNat = t.subsec := by unfold nanos; omega
  rw [ofNanos?, hs, hn, ofParts?_secs_subsec]

def secondOfDay (t : Timestamp) : Int := t.secs % 86_400

/-- By how much a leap second in which a date lies puts off a later time of day. -/
def leapShift (t later : Timestamp) : Int :=
  if t.isLeap && decide (t.secondOfDay < later.secondOfDay) then 1_000_000_000 else 0

/-- The nanoseconds from `now` to the date, negative if it is past. Leap seconds between the two are
not known, and one in which either of them lies counts within the day only. -/
def since (t now : Timestamp) : Int :=
  t.nanos - now.nanos + now.leapShift t - t.leapShift now

theorem since_of_isLeap_eq_false {t now : Timestamp} (ht : t.isLeap = false)
    (hn : now.isLeap = false) : t.since now = t.nanos - now.nanos := by
  simp [since, leapShift, ht, hn]

/-- The time from `now` until the date, if the date is not in the past. -/
def remaining? (t now : Timestamp) : Option Duration :=
  if 0 ≤ t.since now then some (.ofNanos (t.since now).toNat) else none

/-- The longest delay the calendar can be moved by: `2 ^ 63 - 1` milliseconds. -/
def longestDelay : Nat := 0x7fff_ffff_ffff_ffff * 1_000_000

/-- The date after a delay, if the calendar has it. A delay beyond `longestDelay` is no delay. -/
def after? (t : Timestamp) (delay : Duration) : Option Timestamp :=
  ofNanos? (t.nanos + if delay.nanos ≤ longestDelay then (delay.nanos : Int) else 0)

end Timestamp

/-- A reading of the clock that expiries go by. -/
structure Instant where
  nanos : Nat
  deriving DecidableEq

namespace Instant

/-- Where the clock ends: it counts `2 ^ 63` seconds. -/
def limit : Nat := 0x8000_0000_0000_0000 * 1_000_000_000

/-- The reading after some time, unless the clock ends before. -/
def after? (t : Instant) (d : Duration) : Option Instant :=
  if t.nanos + d.nanos < limit then some ⟨t.nanos + d.nanos⟩ else none

def remaining (t now : Instant) : Duration := .ofNanos (t.nanos - now.nanos)

end Instant

end UniqueJobs
