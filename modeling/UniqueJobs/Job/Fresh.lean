import UniqueJobs.Job.Basic
import UniqueJobs.Text.Numeral

/-!
Ids made from the time and a serial number, laid out as UUIDs of version 7: 48 bits of milliseconds,
so that later ids come later in the order of texts, then the version, and the variant among bits that
tell ids of one millisecond apart.
-/

namespace UniqueJobs

def lastHexDigits : (width : Nat) → Nat → List Char
  | 0, _ => []
  | width + 1, n => lastHexDigits width (n / 16) ++ [Text.hexDigit (n % 16)]

theorem length_lastHexDigits (width n : Nat) : (lastHexDigits width n).length = width := by
  induction width generalizing n with
  | zero => rfl
  | succ width ih => simp [lastHexDigits, ih]

/-- The id of a serial number at a time in milliseconds. -/
def JobId.stamped (millis serial : Nat) : JobId :=
  let high := serial / 0x4000_0000_0000_0000 % 0x1000
  let low := serial % 0x4000_0000_0000_0000
  ⟨String.ofList (lastHexDigits 12 millis ++ lastHexDigits 4 (0x7000 + high) ++
    lastHexDigits 16 (0x8000_0000_0000_0000 + low))⟩

/-- Is a text laid out like the ids made here? -/
def JobId.isStamped (id : JobId) : Bool :=
  let s := id.text.toList
  s.length = 32 && s.all (fun c ↦ ('0' ≤ c && c ≤ '9') || ('a' ≤ c && c ≤ 'f')) &&
    s[12]? = some '7' && (s[16]?.map fun c ↦ ['8', '9', 'a', 'b'].contains c) = some true

structure IdSource where
  taken : Nat
  deriving DecidableEq

namespace IdSource

def start : IdSource := ⟨0⟩

def next (s : IdSource) (millis : Nat) : JobId × IdSource :=
  (.stamped millis s.taken, ⟨s.taken + 1⟩)

def take (millis : Nat) : Nat → IdSource → List JobId × IdSource
  | 0, s => ([], s)
  | n + 1, s =>
    let (id, s) := s.next millis
    let (ids, s) := take millis n s
    (id :: ids, s)

end IdSource

end UniqueJobs
