import Mathlib.Tactic.Linarith
import Mathlib.Tactic.Ring
import UniqueJobs.Decimal.Shortest

/-!
Rounding to the nearest double. The rounding interval of a rank is a matter of the ratio and not of
how the ratio is written, and whatever lies in it is read as the double of that rank. Main statement:
`ofDecimal?_of_roundsTo`.
-/

namespace UniqueJobs.Double

theorem binade_eq : binade = 4503599627370496 := by decide

theorem unitsInOne_pos : 0 < unitsInOne := by decide

/-- Powers of ten that are too large, and too small, for a finite double of positive rank, and one
that is as fine as the grid of the smallest doubles. -/
theorem unitsInOne_powers :
    2 ^ (2045 + 56) ≤ 4 * (10 ^ 310 * unitsInOne) ∧ 8 * unitsInOne ≤ 10 ^ 331 ∧
      unitsInOne ≤ 10 ^ 400 := by
  decide +kernel

/-- Within half a unit of a whole number, or at the very half of an even one. -/
theorem roundHalfEven_eq {n d m : Nat} (hd : 0 < d) (low : 2 * (m * d) ≤ 2 * n + d)
    (high : 2 * n ≤ 2 * (m * d) + d)
    (strict : m % 2 = 1 → 2 * (m * d) < 2 * n + d ∧ 2 * n < 2 * (m * d) + d) :
    roundHalfEven n d = m := by
  have hsplit := Nat.div_add_mod' n d
  have hlt := Nat.mod_lt n hd
  simp only [roundHalfEven]
  generalize n / d = q at hsplit ⊢
  generalize n % d = r at hsplit hlt ⊢
  have hle : m ≤ q + 1 := by
    by_contra hmq
    have := Nat.mul_le_mul_right d (show q + 2 ≤ m by omega)
    rw [Nat.add_mul] at this
    omega
  have hge : q ≤ m := by
    by_contra hmq
    have := Nat.mul_le_mul_right d (show m + 1 ≤ q by omega)
    rw [Nat.add_mul] at this
    omega
  obtain rfl | rfl : m = q ∨ m = q + 1 := by omega
  · split
    · rfl
    · have hodd : ¬ m % 2 = 1 := fun h ↦ by
        have := strict h
        omega
      rw [if_neg (by omega), if_pos (by omega)]
  · rw [Nat.add_mul, Nat.one_mul] at low strict
    rw [if_neg (by omega)]
    split
    · rfl
    · rw [if_neg fun h ↦ ?_]
      have := strict (by omega)
      omega

/-! ### The rounding interval of a rank, in quarters of a unit -/

def lowerEnd (r : Nat) : Nat :=
  4 * units r -
    (if significand r = binade ∧ 0 < scale r then 1 <<< scale r else 2 * (1 <<< scale r))

def upperEnd (r : Nat) : Nat := 4 * units r + 2 * (1 <<< scale r)

/-- The ratio is in the rounding interval, whose ends belong to it for an even significand. -/
structure RoundsTo (num den r : Nat) : Prop where
  low : lowerEnd r * den ≤ 4 * num
  high : 4 * num ≤ upperEnd r * den
  strict : significand r % 2 = 1 → lowerEnd r * den < 4 * num ∧ 4 * num < upperEnd r * den

theorem Point.roundsTo_iff {p : Point} {r : Nat} :
    p.roundsTo r = true ↔ RoundsTo p.ratio.1 p.ratio.2 r := by
  unfold Point.roundsTo
  generalize p.ratio = ratio
  obtain ⟨num, den⟩ := ratio
  dsimp only
  by_cases heven : significand r % 2 = 0
  · rw [if_pos heven, decide_eq_true_eq]
    exact ⟨fun h ↦ ⟨h.1, h.2, fun hodd ↦ by omega⟩, fun h ↦ ⟨h.low, h.high⟩⟩
  · rw [if_neg heven, decide_eq_true_eq]
    exact ⟨fun h ↦ ⟨Nat.le_of_lt h.1, Nat.le_of_lt h.2, fun _ ↦ h⟩, fun h ↦ h.strict (by omega)⟩

section Ratio

variable {num den num' den' r : Nat}

theorem end_le_iff (hden : 0 < den) (hden' : 0 < den') (heq : num * den' = num' * den) (a : Nat) :
    a * den ≤ 4 * num ↔ a * den' ≤ 4 * num' := by
  have hleft : a * den * den' = a * den' * den := by ring
  have hright : 4 * num * den' = 4 * num' * den := by rw [Nat.mul_assoc, heq, Nat.mul_assoc]
  rw [← Nat.mul_le_mul_right_iff hden', hleft, hright, Nat.mul_le_mul_right_iff hden]

theorem le_end_iff (hden : 0 < den) (hden' : 0 < den') (heq : num * den' = num' * den) (a : Nat) :
    4 * num ≤ a * den ↔ 4 * num' ≤ a * den' := by
  have hleft : a * den * den' = a * den' * den := by ring
  have hright : 4 * num * den' = 4 * num' * den := by rw [Nat.mul_assoc, heq, Nat.mul_assoc]
  rw [← Nat.mul_le_mul_right_iff hden', hleft, hright, Nat.mul_le_mul_right_iff hden]

/-- The interval does not depend on how the ratio is written. -/
theorem RoundsTo.congr (h : RoundsTo num den r) (hden : 0 < den) (hden' : 0 < den')
    (heq : num * den' = num' * den) : RoundsTo num' den' r := by
  have hle := end_le_iff hden hden' heq
  have hge := le_end_iff hden hden' heq
  refine ⟨(hle _).mp h.low, (hge _).mp h.high, fun hodd ↦ ?_⟩
  obtain ⟨hlow, hhigh⟩ := h.strict hodd
  rw [← Nat.not_le, hge] at hlow
  rw [← Nat.not_le, hle] at hhigh
  exact ⟨Nat.lt_of_not_le hlow, Nat.lt_of_not_le hhigh⟩

end Ratio

theorem Point.ratio_snd_pos (p : Point) : 0 < p.ratio.2 := by
  unfold Point.ratio
  split
  · exact Nat.one_pos
  · exact Nat.pow_pos (by decide)

theorem Point.roundsTo_congr {p q : Point} (r : Nat)
    (h : p.ratio.1 * q.ratio.2 = q.ratio.1 * p.ratio.2) :
    p.roundsTo r = true ↔ q.roundsTo r = true := by
  rw [Point.roundsTo_iff, Point.roundsTo_iff]
  exact ⟨fun hp ↦ hp.congr p.ratio_snd_pos q.ratio_snd_pos h,
    fun hq ↦ hq.congr q.ratio_snd_pos p.ratio_snd_pos h.symm⟩

theorem Point.roundsTo_mul_ten (count : Nat) (power : Int) (r : Nat) :
    Point.roundsTo ⟨count * 10, power - 1⟩ r = true ↔ Point.roundsTo ⟨count, power⟩ r = true := by
  refine Point.roundsTo_congr r ?_
  rcases power with (_ | k) | k
  · have hpower : Int.ofNat 0 - 1 = .negSucc 0 := rfl
    rw [hpower]
    simp only [Point.ratio, Nat.pow_eq]
    ring
  · have hpower : Int.ofNat (k + 1) - 1 = .ofNat k := by
      simp only [Int.ofNat_eq_natCast]
      omega
    rw [hpower]
    simp only [Point.ratio, Nat.pow_eq]
    ring
  · have hpower : Int.negSucc k - 1 = .negSucc (k + 1) := by omega
    rw [hpower]
    simp only [Point.ratio, Nat.pow_eq]
    ring

/-- Zeros behind the digits of a decimal do not matter. -/
theorem Point.roundsTo_shift (count zeros : Nat) (power : Int) (r : Nat) :
    Point.roundsTo ⟨count * 10 ^ zeros, power - zeros⟩ r = true ↔
      Point.roundsTo ⟨count, power⟩ r = true := by
  induction zeros with
  | zero => simp
  | succ n ih =>
    have hpower : power - (n + 1 : Nat) = power - n - 1 := by omega
    rw [Nat.pow_succ, ← Nat.mul_assoc, hpower, Point.roundsTo_mul_ten, ih]

/-! ### Significand and scale -/

theorem rank_eq (r : Nat) : r = scale r * binade + significand r := by
  have hsplit := Nat.div_add_mod' r binade
  unfold scale significand
  rw [binade_eq] at *
  split
  · rename_i h
    rw [Nat.div_eq_of_lt h]
    omega
  · omega

theorem significand_lt (r : Nat) : significand r < 2 * binade := by
  have := Nat.mod_lt r (show 0 < binade by decide)
  unfold significand
  split <;> omega

theorem binade_le_significand {r : Nat} (h : 0 < scale r) : binade ≤ significand r := by
  unfold significand
  split
  · rename_i hlt
    rw [scale, Nat.div_eq_of_lt hlt] at h
    omega
  · omega

theorem units_eq (r : Nat) : units r = significand r * (1 <<< scale r) := by
  rw [units, Nat.shiftLeft_eq, Nat.one_shiftLeft]

theorem log2_sub_eq {x e : Nat} (low : e = 0 ∨ binade * (1 <<< e) ≤ x)
    (high : x < 2 * binade * (1 <<< e)) : Nat.log2 x - 52 = e := by
  have hbinade : binade = 1 <<< 52 := rfl
  rw [hbinade, Nat.one_shiftLeft, Nat.one_shiftLeft] at low high
  have hhigh : x < 2 ^ (e + 53) := by
    calc x < 2 * 2 ^ 52 * 2 ^ e := high
      _ = 2 ^ (e + 53) := by ring
  obtain rfl | hx := Nat.eq_zero_or_pos x
  · obtain rfl | hlow := low
    · rfl
    · have := Nat.mul_pos (Nat.two_pow_pos 52) (Nat.two_pow_pos e)
      omega
  · have hlog : Nat.log2 x < e + 53 := (Nat.log2_lt (by omega)).mpr hhigh
    obtain rfl | hlow := low
    · omega
    · have hge : e + 52 ≤ Nat.log2 x := (Nat.le_log2 (by omega)).mpr (by
        rw [Nat.add_comm, Nat.pow_add]
        exact hlow)
      omega

/-- What is rounded at scale `s` is a significand at that scale. -/
theorem nearestRank_of_scale {num den s m : Nat} (hden : 0 < den)
    (floor : s = 0 ∨ binade * (1 <<< s) * den ≤ num * unitsInOne)
    (ceiling : num * unitsInOne < 2 * binade * (1 <<< s) * den)
    (low : 2 * (m * ((1 <<< s) * den)) ≤ 2 * (num * unitsInOne) + (1 <<< s) * den)
    (high : 2 * (num * unitsInOne) ≤ 2 * (m * ((1 <<< s) * den)) + (1 <<< s) * den)
    (strict : m % 2 = 1 → 2 * (m * ((1 <<< s) * den)) < 2 * (num * unitsInOne) + (1 <<< s) * den ∧
      2 * (num * unitsInOne) < 2 * (m * ((1 <<< s) * den)) + (1 <<< s) * den) :
    nearestRank num den = s * binade + m := by
  have hscale : Nat.log2 (num * unitsInOne / den) - 52 = s := by
    refine log2_sub_eq ?_ ((Nat.div_lt_iff_lt_mul hden).mpr ceiling)
    exact floor.imp_right (Nat.le_div_iff_mul_le hden).mpr
  have hgrid : den <<< s = (1 <<< s) * den := by
    rw [Nat.shiftLeft_eq, Nat.one_shiftLeft, Nat.mul_comm]
  have hpos : 0 < (1 <<< s) * den :=
    Nat.mul_pos (by rw [Nat.one_shiftLeft]; exact Nat.two_pow_pos s) hden
  rw [nearestRank, hscale, hgrid, roundHalfEven_eq hpos low high strict]

theorem lowerEnd_mul (r den : Nat) :
    lowerEnd r * den = 4 * (significand r * ((1 <<< scale r) * den)) -
      (if significand r = binade ∧ 0 < scale r then (1 <<< scale r) * den
        else 2 * ((1 <<< scale r) * den)) := by
  rw [lowerEnd, units_eq, Nat.sub_mul]
  congr 1
  · ring
  · split <;> ring

theorem upperEnd_mul (r den : Nat) :
    upperEnd r * den =
      4 * (significand r * ((1 <<< scale r) * den)) + 2 * ((1 <<< scale r) * den) := by
  rw [upperEnd, units_eq]
  ring

/-- Below a power of two the grid is twice as fine, and the ratio is rounded up to the end of the
finer one. -/
theorem nearestRank_of_below {num den r s : Nat} (hden : 0 < den)
    (h : RoundsTo (num * unitsInOne) den r) (hs : scale r = s + 1)
    (hbelow : num * unitsInOne < binade * (1 <<< scale r) * den) : nearestRank num den = r := by
  have hlead := binade_le_significand (r := r) (by omega)
  have hlow := h.low
  have hgrid : (1 <<< scale r) * den = 2 * ((1 <<< s) * den) := by
    rw [hs, Nat.one_shiftLeft, Nat.one_shiftLeft, Nat.pow_succ]
    ring
  rw [Nat.mul_assoc, hgrid] at hbelow
  rw [lowerEnd_mul, hgrid] at hlow
  have hm : significand r = binade := by
    by_contra hne
    have hmore := Nat.mul_le_mul_right (2 * ((1 <<< s) * den))
      (show binade + 1 ≤ significand r by omega)
    rw [Nat.add_mul] at hmore
    rw [if_neg fun hc ↦ hne hc.1] at hlow
    omega
  rw [hm, if_pos ⟨rfl, by omega⟩] at hlow
  have hrank := rank_eq r
  rw [hs, hm, Nat.add_mul, Nat.one_mul] at hrank
  rw [binade_eq] at hrank hlow hbelow
  have hfiner : nearestRank num den = s * binade + 2 * binade := by
    refine nearestRank_of_scale hden (.inr ?_) ?_ ?_ ?_ fun hodd ↦ ?_
    · rw [binade_eq, Nat.mul_assoc]
      omega
    · rw [binade_eq, Nat.mul_assoc]
      omega
    · rw [binade_eq]
      omega
    · rw [binade_eq]
      omega
    · omega
  rw [hfiner, binade_eq]
  omega

/-- Whatever rounds to a rank is read as that rank. -/
theorem nearestRank_of_roundsTo {num den r : Nat} (hden : 0 < den)
    (h : RoundsTo (num * unitsInOne) den r) : nearestRank num den = r := by
  by_cases hcase : scale r = 0 ∨ binade * (1 <<< scale r) * den ≤ num * unitsInOne
  · obtain ⟨low, high, strict⟩ := h
    rw [lowerEnd_mul] at low strict
    rw [upperEnd_mul] at high strict
    have hceiling : significand r * ((1 <<< scale r) * den) ≤
        9007199254740991 * ((1 <<< scale r) * den) := by
      have := significand_lt r
      rw [binade_eq] at this
      exact Nat.mul_le_mul_right _ (by omega)
    have hpos : 0 < (1 <<< scale r) * den :=
      Nat.mul_pos (by rw [Nat.one_shiftLeft]; exact Nat.two_pow_pos _) hden
    conv_rhs => rw [rank_eq r]
    refine nearestRank_of_scale hden hcase ?_ ?_ ?_ fun hodd ↦ ?_
    · rw [Nat.mul_assoc, binade_eq]
      omega
    · split at low <;> omega
    · omega
    · have := strict hodd
      split at this <;> omega
  · obtain ⟨hscale, hbelow⟩ := not_or.mp hcase
    obtain ⟨s, hs⟩ := Nat.exists_eq_add_one_of_ne_zero hscale
    exact nearestRank_of_below hden h hs (Nat.lt_of_not_le hbelow)

theorem ofRatio?_of_roundsTo {num den : Nat} {d : Double} (hden : 0 < den)
    (h : RoundsTo (num * unitsInOne) den d.rank) : ofRatio? d.negative num den = some d := by
  have hrank := nearestRank_of_roundsTo hden h
  rw [ofRatio?, dif_pos (hrank ▸ d.finite)]
  congr

/-! ### Decimals -/

theorem significand_pos {r : Nat} (h : 0 < r) : 0 < significand r := by
  have hbinade := binade_eq
  unfold significand
  split <;> omega

theorem lowerEnd_pos {r : Nat} (h : 0 < r) : 0 < lowerEnd r := by
  have hm := significand_pos h
  have hg : 0 < 1 <<< scale r := by
    rw [Nat.one_shiftLeft]
    exact Nat.two_pow_pos _
  have hunits := Nat.mul_le_mul_right (1 <<< scale r) hm
  rw [lowerEnd, units_eq]
  split <;> omega

theorem scale_le {r : Nat} (h : r < 2047 * binade) : scale r ≤ 2045 := by
  have := (Nat.div_lt_iff_lt_mul (show 0 < binade by decide)).mpr h
  unfold scale
  omega

theorem upperEnd_lt {r k : Nat} (h : scale r ≤ k) : upperEnd r < 2 ^ (k + 56) := by
  have hm := significand_lt r
  have hgrid : 1 <<< scale r ≤ 2 ^ k := by
    rw [Nat.one_shiftLeft]
    exact pow_le_pow_right₀ (by decide) h
  have hunits : units r ≤ (2 * binade - 1) * 2 ^ k := by
    rw [units_eq]
    exact Nat.mul_le_mul (by omega) hgrid
  rw [upperEnd, Nat.pow_add']
  calc 4 * units r + 2 * (1 <<< scale r) ≤ 4 * ((2 * binade - 1) * 2 ^ k) + 2 * 2 ^ k :=
        Nat.add_le_add (Nat.mul_le_mul_left 4 hunits) (Nat.mul_le_mul_left 2 hgrid)
    _ = (4 * (2 * binade - 1) + 2) * 2 ^ k := by rw [Nat.add_mul, Nat.mul_assoc]
    _ < 2 ^ 56 * 2 ^ k := Nat.mul_lt_mul_of_pos_right (by decide) (Nat.two_pow_pos k)

variable {p : Point} {r : Nat}

theorem Point.count_pos_of_roundsTo (h : p.roundsTo r = true) (hr : 0 < r) : 0 < p.count := by
  have hlow := (Point.roundsTo_iff.mp h).low
  have hend := lowerEnd_pos hr
  refine Nat.pos_of_ne_zero fun hzero ↦ ?_
  have hratio : p.ratio.1 = 0 := by
    unfold Point.ratio
    split <;> simp [hzero]
  have := Nat.mul_pos hend p.ratio_snd_pos
  omega

/-- Exponents of what rounds to a finite double are not among those too large to be raised to. -/
theorem le_of_roundsTo_ofNat {count k : Nat} (h : (Point.mk count (.ofNat k)).roundsTo r = true)
    (hr : 0 < r) (hfinite : r < 2047 * binade) : k ≤ 309 := by
  have hcount := Point.count_pos_of_roundsTo h hr
  have hhigh := (Point.roundsTo_iff.mp h).high
  have hend : upperEnd r < 2 ^ (2045 + 56) := upperEnd_lt (scale_le hfinite)
  simp only [Point.ratio, Nat.mul_one, Nat.pow_eq] at hhigh
  by_contra hk
  have hpow : 10 ^ 310 ≤ count * 10 ^ k :=
    Nat.le_trans (pow_le_pow_right₀ (by decide) (by omega)) (Nat.le_mul_of_pos_left _ hcount)
  refine Nat.lt_irrefl (upperEnd r) ?_
  calc upperEnd r < 2 ^ (2045 + 56) := hend
    _ ≤ 4 * (10 ^ 310 * unitsInOne) := unitsInOne_powers.1
    _ ≤ 4 * (count * 10 ^ k * unitsInOne) :=
        Nat.mul_le_mul_left 4 (Nat.mul_le_mul_right unitsInOne hpow)
    _ ≤ upperEnd r := hhigh

/-- Exponents of what rounds to a positive rank are not among those that make the number zero. -/
theorem le_of_roundsTo_negSucc {count k : Nat}
    (h : (Point.mk count (.negSucc k)).roundsTo r = true) (hr : 0 < r) :
    k + 1 ≤ Nat.log2 count + 330 := by
  have hcount := Point.count_pos_of_roundsTo h hr
  have hlow := (Point.roundsTo_iff.mp h).low
  have hend := lowerEnd_pos hr
  simp only [Point.ratio, Nat.pow_eq] at hlow
  by_contra hk
  have hdigits : count < 2 ^ (Nat.log2 count + 1) := Nat.lt_log2_self
  have hpow : 10 ^ (Nat.log2 count + 331) ≤ lowerEnd r * 10 ^ (k + 1) :=
    Nat.le_trans (Nat.pow_le_pow_right (by decide) (by omega)) (Nat.le_mul_of_pos_left _ hend)
  have hlarge : 2 ^ Nat.log2 count * (8 * unitsInOne) ≤ 10 ^ (Nat.log2 count + 331) := by
    rw [pow_add]
    have hcount : 2 ^ Nat.log2 count ≤ 10 ^ Nat.log2 count := Nat.pow_le_pow_left (by decide) _
    exact Nat.mul_le_mul hcount unitsInOne_powers.2.1
  have hsmall : count * unitsInOne < 2 ^ (Nat.log2 count + 1) * unitsInOne :=
    Nat.mul_lt_mul_of_pos_right hdigits unitsInOne_pos
  have hdouble : 4 * (2 ^ (Nat.log2 count + 1) * unitsInOne) =
      2 ^ Nat.log2 count * (8 * unitsInOne) := by ring
  omega

/-- A decimal in the rounding interval of a double is read as that double. -/
theorem ofDecimal?_of_roundsTo {d : Double} (h : p.roundsTo d.rank = true) (hd : 0 < d.rank) :
    ofDecimal? d.negative p.count p.power = some d := by
  have hcount := Point.count_pos_of_roundsTo h hd
  have hrounds := Point.roundsTo_iff.mp h
  obtain ⟨count, power⟩ := p
  unfold ofDecimal?
  rw [if_neg (Nat.ne_of_gt hcount)]
  rcases power with k | k
  · have hk := le_of_roundsTo_ofNat h hd d.finite
    simp only [if_neg (Nat.not_lt.mpr hk)]
    exact ofRatio?_of_roundsTo (by decide) hrounds
  · have hk := le_of_roundsTo_negSucc h hd
    simp only [if_neg (Nat.not_lt.mpr hk)]
    exact ofRatio?_of_roundsTo (Nat.pow_pos (by decide)) hrounds

end UniqueJobs.Double
