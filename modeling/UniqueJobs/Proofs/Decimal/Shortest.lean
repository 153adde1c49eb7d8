import UniqueJobs.Proofs.Decimal.Nearest

/-!
The shortest decimal of a double rounds to that double: whatever a grid offers does so, and the grid
of seventeen digits is finer than every rounding interval. Main statement: `shortest_roundsTo`.
-/

namespace UniqueJobs.Double

theorem le_leadingZeros {den num room : Nat} (h : den ≤ num * 10 ^ room) :
    den ≤ num * 10 ^ (leadingZeros den num room + 1) := by
  induction room generalizing num with
  | zero =>
    rw [leadingZeros]
    omega
  | succ room ih =>
    rw [leadingZeros]
    split
    · rename_i hle
      simpa using hle
    · have hrest := @ih (num * 10) (by rwa [Nat.mul_assoc, ← Nat.pow_succ'])
      rwa [Nat.mul_assoc, ← Nat.pow_succ'] at hrest

/-! ### The first digit is not beyond the ratio -/

variable {num den k : Nat}

theorem pow_mul_le_of_leadingPower (hden : 0 < den) (h : leadingPower num den = .ofNat k) :
    10 ^ k * den ≤ num := by
  rw [leadingPower] at h
  split at h
  · rename_i hle
    have hpos := (Nat.one_le_div_iff hden).mpr hle
    have hdigits : 10 ^ k ≤ num / den := by
      obtain rfl | hk := Nat.eq_zero_or_pos k
      · simpa using hpos
      · have hlength := (Nat.length_toDigits_le_iff (n := num / den) (by decide : 1 < 10) hk).not
        refine Nat.le_of_not_lt (hlength.mp ?_)
        simp only [Int.ofNat_eq_natCast] at h
        omega
    exact (Nat.le_div_iff_mul_le hden).mp hdigits
  · simp only [Int.ofNat_eq_natCast] at h
    omega

theorem le_mul_pow_of_leadingPower (hroom : den ≤ num * 10 ^ 400)
    (h : leadingPower num den = .negSucc k) : den ≤ num * 10 ^ (k + 1) := by
  rw [leadingPower] at h
  split at h
  · have := Nat.length_toDigits_pos (b := 10) (n := num / den)
    omega
  · have hzeros := le_leadingZeros hroom
    have hk : leadingZeros den num 400 = k := by omega
    rwa [hk] at hzeros

/-! ### Seventeen digits are enough -/

/-- On a grid with more than `10 ^ 16` points up to the double, a neighbour of it rounds to it. -/
theorem roundsTo_neighbour {r gap : Nat} (hden : 0 < den) (hgap : 0 < gap)
    (hfine : 10 ^ 16 * gap ≤ units r * den) :
    RoundsTo (units r * den / gap * gap) den r ∨
      RoundsTo ((units r * den / gap + 1) * gap) den r := by
  have hsplit := Nat.div_add_mod' (units r * den) gap
  have hrest := Nat.mod_lt (units r * den) hgap
  have hvalue : units r * den = significand r * ((1 <<< scale r) * den) := by
    rw [units_eq, Nat.mul_assoc]
  have hm := significand_lt r
  have hstep : 0 < (1 <<< scale r) * den :=
    Nat.mul_pos (by rw [Nat.one_shiftLeft]; exact Nat.two_pow_pos _) hden
  have hbelow := lowerEnd_mul r den
  have habove := upperEnd_mul r den
  rw [Nat.add_mul, Nat.one_mul]
  rw [hvalue] at hfine hsplit hrest ⊢
  generalize (1 <<< scale r) * den = step at *
  generalize significand r * step / gap * gap = floor at *
  generalize hrem : significand r * step % gap = rest at *
  -- half the grid is less than the distance of either end
  have hends : lowerEnd r * den + 2 * gap < 4 * (significand r * step) ∧
      4 * (significand r * step) + 2 * gap < upperEnd r * den := by
    rw [hbelow, habove, binade_eq]
    rw [binade_eq] at hm
    split
    · rename_i hpower
      rw [hpower.1] at hfine ⊢
      omega
    · have := Nat.mul_le_mul_right step (show significand r ≤ 9007199254740991 by omega)
      omega
  by_cases hhalf : 2 * rest ≤ gap
  · exact .inl ⟨by omega, by omega, fun _ ↦ ⟨by omega, by omega⟩⟩
  · exact .inr ⟨by omega, by omega, fun _ ↦ ⟨by omega, by omega⟩⟩

/-! ### What a grid offers -/

/-- The last point of the grid that is not beyond the double of rank `r`. -/
def floorPoint (r : Nat) (power : Int) : Point where
  count := match power with
    | .ofNat k => units r / (Nat.pow 10 k * unitsInOne)
    | .negSucc k => units r * Nat.pow 10 (k + 1) / unitsInOne
  power := power

def Point.next (p : Point) : Point := ⟨p.count + 1, p.power⟩

def Point.pick? (low high : Point) (r : Nat) : Option Point :=
  match low.roundsTo r, high.roundsTo r with
  | true, true => some (nearer low high r)
  | true, false => some low
  | false, true => some high
  | false, false => none

theorem pointOfDigits?_eq (r n : Nat) (lead : Int) :
    pointOfDigits? r lead n =
      (floorPoint r (lead - n + 1)).pick? (floorPoint r (lead - n + 1)).next r := rfl

theorem nearer_eq (low high : Point) (r : Nat) :
    nearer low high r = low ∨ nearer low high r = high := by
  unfold nearer
  split
  · exact .inl rfl
  · split
    · exact .inr rfl
    · split
      · exact .inl rfl
      · exact .inr rfl

theorem Point.roundsTo_of_pick? {low high p : Point} {r : Nat} (h : low.pick? high r = some p) :
    p.roundsTo r = true := by
  unfold Point.pick? at h
  split at h
  · rename_i hlow hhigh
    obtain rfl := Option.some.inj h
    obtain heq | heq := nearer_eq low high r
    · rwa [heq]
    · rwa [heq]
  · rename_i hlow _
    exact Option.some.inj h ▸ hlow
  · rename_i _ hhigh
    exact Option.some.inj h ▸ hhigh
  · cases h

theorem Point.isSome_pick? {low high : Point} {r : Nat}
    (h : low.roundsTo r = true ∨ high.roundsTo r = true) : (low.pick? high r).isSome := by
  unfold Point.pick?
  split
  · rfl
  · rfl
  · rfl
  · simp_all

/-- The grid is fine enough if `10 ^ 16` of its steps do not pass the double. -/
theorem isSome_pick?_floorPoint {r : Nat} {power : Int}
    (hfine : 10 ^ 16 * (Point.mk 1 power).ratio.1 ≤ units r * (Point.mk 1 power).ratio.2) :
    ((floorPoint r power).pick? (floorPoint r power).next r).isSome := by
  refine Point.isSome_pick? ?_
  rw [Point.roundsTo_iff, Point.roundsTo_iff]
  rcases power with k | k
  · have hgap : 0 < 10 ^ k * unitsInOne := Nat.mul_pos (Nat.pow_pos (by decide)) unitsInOne_pos
    simp only [Point.ratio, Nat.pow_eq, Nat.one_mul] at hfine
    simpa [Point.ratio, Point.next, floorPoint, Nat.mul_assoc] using
      roundsTo_neighbour Nat.one_pos hgap hfine
  · simp only [Point.ratio, Nat.pow_eq, Nat.one_mul] at hfine
    simpa [Point.ratio, Point.next, floorPoint] using
      roundsTo_neighbour (Nat.pow_pos (by decide)) unitsInOne_pos hfine

theorem units_pos {r : Nat} (h : 0 < r) : 0 < units r := by
  rw [units_eq]
  refine Nat.mul_pos (significand_pos h) ?_
  rw [Nat.one_shiftLeft]
  exact Nat.two_pow_pos _

theorem isSome_pointOfDigits?_seventeen {r : Nat} (hr : 0 < r) :
    (pointOfDigits? r (leadingPower (units r) unitsInOne) 17).isSome := by
  have hroom : unitsInOne ≤ units r * 10 ^ 400 :=
    Nat.le_trans unitsInOne_powers.2.2
      (Nat.le_mul_of_pos_left _ (units_pos hr))
  rw [pointOfDigits?_eq]
  refine isSome_pick?_floorPoint ?_
  rcases hlead : leadingPower (units r) unitsInOne with a | a
  · have hfirst := pow_mul_le_of_leadingPower unitsInOne_pos hlead
    rcases hpower : Int.ofNat a - (17 : Nat) + 1 with k | k
    · obtain rfl : a = 16 + k := by
        simp only [Int.ofNat_eq_natCast] at hpower
        omega
      rw [Point.ratio]
      simp only [Nat.pow_eq]
      calc 10 ^ 16 * (1 * 10 ^ k * unitsInOne) = 10 ^ (16 + k) * unitsInOne := by ring
        _ ≤ units r * 1 := by rwa [Nat.mul_one]
    · have hsum : a + (k + 1) = 16 := by
        simp only [Int.ofNat_eq_natCast] at hpower
        omega
      rw [Point.ratio]
      simp only [Nat.pow_eq]
      calc 10 ^ 16 * (1 * unitsInOne) = 10 ^ (a + (k + 1)) * unitsInOne := by rw [hsum]; ring
        _ = 10 ^ a * unitsInOne * 10 ^ (k + 1) := by ring
        _ ≤ units r * 10 ^ (k + 1) := Nat.mul_le_mul_right _ hfirst
  · have hfirst := le_mul_pow_of_leadingPower hroom hlead
    have hpower : Int.negSucc a - (17 : Nat) + 1 = Int.negSucc (a + 16) := by omega
    rw [hpower, Point.ratio]
    simp only [Nat.pow_eq]
    calc 10 ^ 16 * (1 * unitsInOne) = unitsInOne * 10 ^ 16 := by ring
      _ ≤ units r * 10 ^ (a + 1) * 10 ^ 16 := Nat.mul_le_mul_right _ hfirst
      _ = units r * 10 ^ (a + 16 + 1) := by ring

/-- The shortest decimal of a positive rank rounds to that rank. -/
theorem shortest_roundsTo {r : Nat} (hr : 0 < r) : (shortest r).roundsTo r = true := by
  have hseventeen := isSome_pointOfDigits?_seventeen hr
  have hfound : ((List.range' 1 17).findSome?
      (pointOfDigits? r (leadingPower (units r) unitsInOne))).isSome :=
    List.findSome?_isSome_iff.mpr ⟨17, by simp, hseventeen⟩
  obtain ⟨p, hp⟩ := Option.isSome_iff_exists.mp hfound
  obtain ⟨n, -, hn⟩ := List.exists_of_findSome?_eq_some hp
  rw [shortest, hp]
  rw [pointOfDigits?_eq] at hn
  exact Point.roundsTo_of_pick? hn

end UniqueJobs.Double
