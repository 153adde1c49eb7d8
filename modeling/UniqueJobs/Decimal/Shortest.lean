import UniqueJobs.Decimal.Double

/-!
The shortest decimal that reads back as a given double: of the grids of 1, 2, … 17 significant
digits the first that has a point among the reals rounding to the double, and of its points there
the one nearest to the double. Of two that are equally near it is the even one.
-/

namespace UniqueJobs.Double

/-- How many places after the point are zero before the first digit of `num / den < 1`, counted up
to `room`. -/
def leadingZeros (den : Nat) : Nat → Nat → Nat
  | _, 0 => 0
  | num, room + 1 => if den ≤ num * 10 then 0 else leadingZeros den (num * 10) room + 1

def leadingPower (num den : Nat) : Int :=
  if den ≤ num then ((Nat.toDigits 10 (num / den)).length : Int) - 1
  else -(leadingZeros den num 400 : Int) - 1

/-- A decimal: a whole number of units of a power of ten. -/
structure Point where
  count : Nat
  power : Int
  deriving DecidableEq

/-- The point in units of `2 ^ -1074`, as numerator and denominator. -/
def Point.ratio (p : Point) : Nat × Nat :=
  match p.power with
  | .ofNat k => (p.count * Nat.pow 10 k * unitsInOne, 1)
  | .negSucc k => (p.count * unitsInOne, Nat.pow 10 (k + 1))

/-- Does the decimal round to the double of rank `r`? The ends of the interval do so if the
significand is even, and the lower half of the interval is the smaller one at a power of two. -/
def Point.roundsTo (p : Point) (r : Nat) : Bool :=
  let (num, den) := p.ratio
  let gap := 1 <<< scale r
  let below := 4 * units r - (if significand r = binade ∧ 0 < scale r then gap else 2 * gap)
  let above := 4 * units r + 2 * gap
  if significand r % 2 = 0 then below * den ≤ 4 * num ∧ 4 * num ≤ above * den
  else below * den < 4 * num ∧ 4 * num < above * den

/-- The distance from the double of rank `r`, times the denominator of the grid. -/
def Point.distance (p : Point) (r : Nat) : Nat :=
  let (num, den) := p.ratio
  (num - units r * den) + (units r * den - num)

/-- Of two neighbours on a grid the one nearer to the double of rank `r`, or else the even one. -/
def nearer (low high : Point) (r : Nat) : Point :=
  if low.distance r < high.distance r then low
  else if high.distance r < low.distance r then high
  else if low.count % 2 = 0 then low
  else high

/-- The point that `n` significant digits, the first standing for `10 ^ lead`, give for rank `r`. -/
def pointOfDigits? (r : Nat) (lead : Int) (n : Nat) : Option Point :=
  let power := lead - n + 1
  let count := match power with
    | .ofNat k => units r / (Nat.pow 10 k * unitsInOne)
    | .negSucc k => units r * Nat.pow 10 (k + 1) / unitsInOne
  let low : Point := ⟨count, power⟩
  let high : Point := ⟨count + 1, power⟩
  match low.roundsTo r, high.roundsTo r with
  | true, true => some (nearer low high r)
  | true, false => some low
  | false, true => some high
  | false, false => none

/-- The shortest decimal for a positive rank. Seventeen digits are enough for every double. -/
def shortest (r : Nat) : Point :=
  let lead := leadingPower (units r) unitsInOne
  ((List.range' 1 17).findSome? (pointOfDigits? r lead)).getD ⟨0, 0⟩

structure Layout where
  /-- Powers of ten of the first digit that are written without an exponent. -/
  positionalFrom : Int
  positionalTo : Int
  exponentMark : Char

/-- Digits, the first standing for `10 ^ lead`, with a point always shown where no exponent is, and
the sign of an exponent always shown. -/
def Layout.render (l : Layout) (digits : List Char) (lead : Int) : List Char :=
  if l.positionalFrom ≤ lead ∧ lead ≤ l.positionalTo then
    if lead < 0 then
      ['0', '.'] ++ List.replicate (-lead - 1).toNat '0' ++ digits
    else
      let whole := lead.toNat + 1
      if digits.length ≤ whole then
        digits ++ List.replicate (whole - digits.length) '0' ++ ['.', '0']
      else digits.take whole ++ '.' :: digits.drop whole
  else
    let tail := match digits.drop 1 with
      | [] => []
      | more => '.' :: more
    let sign := if lead < 0 then '-' else '+'
    digits.take 1 ++ tail ++ l.exponentMark :: sign :: (toString lead.natAbs).toList

def dropTrailingZeros (digits : List Char) : List Char :=
  (digits.reverse.dropWhile (· = '0')).reverse

def render (l : Layout) (d : Double) : List Char :=
  let body :=
    if d.rank = 0 then l.render ['0'] 0
    else
      let p := shortest d.rank
      let digits := Nat.toDigits 10 p.count
      l.render (dropTrailingZeros digits) (p.power + digits.length - 1)
  if d.negative then '-' :: body else body

end UniqueJobs.Double
