/-!
Whole numbers written in a base: an optional sign, then one or more digits, with a bound on the
value. The first fault met from the left is the one reported, and a number is found too large at
the digit that makes it so.
-/

namespace UniqueJobs.Text

inductive NumeralFault
  | empty
  | invalidDigit
  | tooLarge
  | tooSmall
  deriving DecidableEq, Repr

def NumeralFault.message : NumeralFault → String
  | .empty => "cannot parse integer from empty string"
  | .invalidDigit => "invalid digit found in string"
  | .tooLarge => "number too large to fit in target type"
  | .tooSmall => "number too small to fit in target type"

def digitValue (c : Char) : Option Nat :=
  let n := c.toNat
  if 48 ≤ n ∧ n ≤ 57 then some (n - 48)
  else if 97 ≤ n ∧ n ≤ 122 then some (n - 87)
  else if 65 ≤ n ∧ n ≤ 90 then some (n - 55)
  else none

def hexDigit (n : Nat) : Char := if n < 10 then Char.ofNat (48 + n) else Char.ofNat (87 + n)

/-- Read digits after those that gave `value`; `beyond` is the fault of passing `bound`. -/
def readDigits (base bound : Nat) (beyond : NumeralFault) :
    Nat → List Char → Except NumeralFault Nat
  | value, [] => .ok value
  | value, c :: rest =>
    match (digitValue c).filter (· < base) with
    | none => .error .invalidDigit
    | some d =>
      if value * base + d ≤ bound then readDigits base bound beyond (value * base + d) rest
      else .error beyond

theorem readDigits_append {base bound v : Nat} {beyond : NumeralFault} (s t : List Char) :
    readDigits base bound beyond v (s ++ t) =
      match readDigits base bound beyond v s with
      | .error f => .error f
      | .ok n => readDigits base bound beyond n t := by
  induction s generalizing v with
  | nil => rfl
  | cons c rest ih =>
    simp only [List.cons_append, readDigits]
    split
    · rfl
    · split
      · exact ih
      · rfl

/-- A number without a minus sign, at most `bound`. -/
def readNat (base bound : Nat) (s : List Char) : Except NumeralFault Nat :=
  match s with
  | [] => .error .empty
  | ['+'] | ['-'] => .error .invalidDigit
  | '+' :: rest => readDigits base bound .tooLarge 0 rest
  | s => readDigits base bound .tooLarge 0 s

/-- A decimal number between `-2 ^ 63` and `2 ^ 63 - 1`. -/
def readInt64 (s : List Char) : Except NumeralFault Int64 :=
  match s with
  | ['-'] => .error .invalidDigit
  | '-' :: rest =>
    (readDigits 10 0x8000_0000_0000_0000 .tooSmall 0 rest).map fun n ↦ Int64.ofInt (-(n : Int))
  | s => (readNat 10 0x7fff_ffff_ffff_ffff s).map fun n ↦ Int64.ofInt n

end UniqueJobs.Text
