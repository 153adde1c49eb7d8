/-!
Finite binary floating-point numbers with 53 significant bits, kept by their rank: zero has rank 0
and each next larger number has the next rank, so that rank and sign are exactly the bits of the
usual 64-bit form. Every such number is a whole multiple of `2 ^ -1074`, and that multiple is what
reading and writing reckon with, in whole numbers only.
-/

namespace UniqueJobs

def Double.binade : Nat := 1 <<< 52

structure Double where
  negative : Bool
  rank : Nat
  finite : rank < 2047 * Double.binade
  deriving DecidableEq

namespace Double

/-- How many units of `2 ^ -1074` make one. -/
def unitsInOne : Nat := 1 <<< 1074

/-- The multiple of `2 ^ -1074` that rank `r` stands for, as a significand and the power of two that
scales it. -/
def significand (r : Nat) : Nat := if r < binade then r else binade + r % binade

def scale (r : Nat) : Nat := r / binade - 1

def units (r : Nat) : Nat := significand r <<< scale r

def zero (negative : Bool) : Double := ⟨negative, 0, by decide⟩

/-- `num / den` rounded to a whole number, a half going to the even neighbour. -/
def roundHalfEven (num den : Nat) : Nat :=
  let q := num / den
  let r := num % den
  if 2 * r < den then q
  else if den < 2 * r then q + 1
  else if q % 2 = 0 then q else q + 1

/-- The rank of the number nearest to `num / den`, as if ranks went on without end. -/
def nearestRank (num den : Nat) : Nat :=
  let s := Nat.log2 (num * unitsInOne / den) - 52
  s * binade + roundHalfEven (num * unitsInOne) (den <<< s)

/-- The number nearest to a ratio, unless the ratio is beyond the finite ones. -/
def ofRatio? (negative : Bool) (num den : Nat) : Option Double :=
  if h : nearestRank num den < 2047 * binade then some ⟨negative, nearestRank num den, h⟩ else none

/-- The number nearest to `digits * 10 ^ exponent`. Exponents far outside the range decide the
answer without being raised to. -/
def ofDecimal? (negative : Bool) (digits : Nat) (exponent : Int) : Option Double :=
  if digits = 0 then some (zero negative)
  else match exponent with
    | .ofNat k => if 309 < k then none else ofRatio? negative (digits * Nat.pow 10 k) 1
    | .negSucc k =>
      if Nat.log2 digits + 330 < k + 1 then some (zero negative)
      else ofRatio? negative digits (Nat.pow 10 (k + 1))

end Double

end UniqueJobs
