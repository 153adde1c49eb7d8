import UniqueJobs.Text.Numeral

/-!
Which texts are numerals. `Spelled` says what number a text of digits stands for, with nothing in it
about the order of reading, and `readNat_eq_ok_iff` that a text is read as a number exactly if it is
a numeral for it and the number is within the bound.
-/

namespace UniqueJobs.Text

/-- Does a character stand for a digit in a base? Letters do in either case. -/
def IsDigit (base : Nat) (c : Char) (d : Nat) : Prop :=
  d < base ∧ ("0123456789abcdefghijklmnopqrstuvwxyz".toList[d]? = some c ∨
    "0123456789ABCDEFGHIJKLMNOPQRSTUVWXYZ".toList[d]? = some c)

/-- One digit or more, and the number that they stand for in a base. -/
inductive Spelled (base : Nat) : List Char → Nat → Prop
  | digit {c : Char} {d : Nat} (hc : IsDigit base c d) : Spelled base [c] d
  | concat {s : List Char} {n : Nat} {c : Char} {d : Nat} (hs : Spelled base s n)
      (hc : IsDigit base c d) : Spelled base (s ++ [c]) (n * base + d)

/-- Digits, with or without a plus sign before them. -/
inductive Numeral (base : Nat) : List Char → Nat → Prop
  | plain {s : List Char} {n : Nat} (h : Spelled base s n) : Numeral base s n
  | signed {s : List Char} {n : Nat} (h : Spelled base s n) : Numeral base ('+' :: s) n

variable {base bound n v : Nat} {s : List Char} {c : Char} {d : Nat} {beyond : NumeralFault}

theorem digitValue_eq_some_iff :
    digitValue c = some d ↔ d < 36 ∧
      (c.toNat = (if d < 10 then d + 48 else d + 87) ∨
        c.toNat = if d < 10 then d + 48 else d + 55) := by
  simp only [digitValue]
  split
  · rw [Option.some.injEq]
    split <;> omega
  · split
    · rw [Option.some.injEq]
      split <;> omega
    · split
      · rw [Option.some.injEq]
        split <;> omega
      · simp only [reduceCtorEq, false_iff]
        split <;> omega

/-- The code points of the digits, with small letters and with capitals. -/
theorem map_toNat_digits :
    "0123456789abcdefghijklmnopqrstuvwxyz".toList.map Char.toNat =
        (List.range 36).map (fun d ↦ if d < 10 then d + 48 else d + 87) ∧
      "0123456789ABCDEFGHIJKLMNOPQRSTUVWXYZ".toList.map Char.toNat =
        (List.range 36).map fun d ↦ if d < 10 then d + 48 else d + 55 := by
  decide

theorem getElem?_eq_some_iff_toNat {l : List Char} {k : Nat} {f : Nat → Nat}
    (h : l.map Char.toNat = (List.range k).map f) : l[d]? = some c ↔ d < k ∧ c.toNat = f d := by
  have hget : l[d]?.map Char.toNat = (List.range k)[d]?.map f := by
    rw [← List.getElem?_map, h, List.getElem?_map]
  rw [← Option.map_inj_right fun _ _ ↦ Char.toNat_inj.mp, hget, Option.map_some]
  by_cases hd : d < k
  · rw [List.getElem?_range hd, Option.map_some, Option.some.injEq, and_iff_right hd]
    exact eq_comm
  · have hlen : (List.range k).length ≤ d := by simpa using hd
    rw [List.getElem?_eq_none hlen]
    simp [hd]

theorem filter_digitValue_eq_some_iff :
    (digitValue c).filter (· < base) = some d ↔ IsDigit base c d := by
  rw [Option.filter_eq_some_iff, decide_eq_true_eq, digitValue_eq_some_iff, IsDigit, and_comm,
    getElem?_eq_some_iff_toNat map_toNat_digits.1, getElem?_eq_some_iff_toNat map_toNat_digits.2,
    and_or_left]

theorem IsDigit.ne {sign : Char} (h : IsDigit base c d)
    (hsign : digitValue sign = none) : c ≠ sign := by
  rintro rfl
  rw [← filter_digitValue_eq_some_iff, hsign] at h
  cases h

theorem readDigits_singleton_eq_ok_iff :
    readDigits base bound beyond v [c] = .ok n ↔
      ∃ d, IsDigit base c d ∧ n = v * base + d ∧ n ≤ bound := by
  simp only [readDigits]
  split
  · rename_i hnone
    refine ⟨fun h ↦ (by cases h), ?_⟩
    rintro ⟨d, hc, -⟩
    rw [← filter_digitValue_eq_some_iff, hnone] at hc
    cases hc
  · rename_i d hd
    have hdigit : IsDigit base c d := filter_digitValue_eq_some_iff.mp hd
    split
    · rename_i hle
      constructor
      · intro h
        obtain rfl := Except.ok.inj h
        exact ⟨d, hdigit, rfl, hle⟩
      · rintro ⟨d', hd', rfl, -⟩
        rw [← filter_digitValue_eq_some_iff, hd] at hd'
        rw [Option.some.inj hd']
    · rename_i hle
      refine ⟨fun h ↦ (by cases h), ?_⟩
      rintro ⟨d', hd', rfl, hn⟩
      rw [← filter_digitValue_eq_some_iff, hd] at hd'
      obtain rfl := Option.some.inj hd'
      exact absurd hn hle

/-- Reading on after some digits spells out the longer text. -/
theorem Spelled.of_readDigits {p : List Char} (hp : Spelled base p v) (hv : v ≤ bound)
    (h : readDigits base bound beyond v s = .ok n) : Spelled base (p ++ s) n ∧ n ≤ bound := by
  induction s generalizing p v with
  | nil =>
    obtain rfl := Except.ok.inj h
    rw [List.append_nil]
    exact ⟨hp, hv⟩
  | cons c rest ih =>
    rw [← List.singleton_append, readDigits_append] at h
    split at h
    · cases h
    · rename_i m hm
      obtain ⟨d, hc, rfl, hle⟩ := readDigits_singleton_eq_ok_iff.mp hm
      have hnext := ih (hp.concat hc) hle h
      rwa [List.append_assoc] at hnext

theorem Spelled.readDigits (h : Spelled base s n) (hn : n ≤ bound) :
    readDigits base bound beyond 0 s = .ok n := by
  induction h with
  | digit hc => exact readDigits_singleton_eq_ok_iff.mpr ⟨_, hc, by omega, hn⟩
  | @concat s n c d hs hc ih =>
    -- What stands before the last digit is no greater, since the base is not zero.
    have hpos : 0 < base := Nat.lt_of_le_of_lt (Nat.zero_le d) hc.1
    have hbefore : n ≤ n * base := Nat.le_mul_of_pos_right n hpos
    rw [readDigits_append, ih (by omega)]
    exact readDigits_singleton_eq_ok_iff.mpr ⟨d, hc, rfl, hn⟩

theorem readDigits_eq_ok_iff (hs : s ≠ []) :
    readDigits base bound beyond 0 s = .ok n ↔ Spelled base s n ∧ n ≤ bound := by
  refine ⟨fun h ↦ ?_, fun h ↦ h.1.readDigits h.2⟩
  obtain ⟨c, rest, rfl⟩ := List.exists_cons_of_ne_nil hs
  rw [← List.singleton_append, readDigits_append] at h
  split at h
  · cases h
  · rename_i m hm
    obtain ⟨d, hc, rfl, hle⟩ := readDigits_singleton_eq_ok_iff.mp hm
    rw [Nat.zero_mul, Nat.zero_add] at h hle
    exact Spelled.of_readDigits (.digit hc) hle h

theorem Spelled.isDigit_of_mem (h : Spelled base s n) : ∀ c ∈ s, ∃ d, IsDigit base c d := by
  induction h with
  | digit hc =>
    intro c hmem
    rw [List.mem_singleton.mp hmem]
    exact ⟨_, hc⟩
  | concat hs hc ih =>
    intro c hmem
    rcases List.mem_append.mp hmem with hmem | hmem
    · exact ih c hmem
    · rw [List.mem_singleton.mp hmem]
      exact ⟨_, hc⟩

theorem not_spelled_nil : ¬ Spelled base [] n := by
  intro h
  generalize hs : [] = s at h
  cases h with
  | digit => cases hs
  | concat => exact List.append_ne_nil_of_right_ne_nil _ (List.cons_ne_nil _ _) hs.symm

theorem not_spelled_sign {sign : Char} (hsign : digitValue sign = none) :
    ¬ Spelled base (sign :: s) n := by
  intro h
  obtain ⟨d, hd⟩ := h.isDigit_of_mem sign List.mem_cons_self
  exact hd.ne hsign rfl

theorem numeral_plus_iff : Numeral base ('+' :: s) n ↔ Spelled base s n := by
  refine ⟨fun h ↦ ?_, .signed⟩
  cases h with
  | plain h => exact absurd h (not_spelled_sign (by decide))
  | signed h => exact h

theorem numeral_iff_of_ne_plus (hs : ∀ rest, s ≠ '+' :: rest) :
    Numeral base s n ↔ Spelled base s n := by
  refine ⟨fun h ↦ ?_, .plain⟩
  cases h with
  | plain h => exact h
  | signed h => exact absurd rfl (hs _)

theorem readNat_eq_ok_iff :
    readNat base bound s = .ok n ↔ Numeral base s n ∧ n ≤ bound := by
  unfold readNat
  split
  · simp [numeral_iff_of_ne_plus, not_spelled_nil]
  · simp [numeral_plus_iff, not_spelled_nil]
  · have hminus : ¬ Spelled base ['-'] n := not_spelled_sign (by decide)
    simp [numeral_iff_of_ne_plus, hminus]
  · rename_i rest hrest
    rw [numeral_plus_iff, readDigits_eq_ok_iff]
    rintro rfl
    exact hrest rfl
  · rename_i hnil _ _ hplus
    rw [numeral_iff_of_ne_plus hplus, readDigits_eq_ok_iff hnil]

end UniqueJobs.Text
