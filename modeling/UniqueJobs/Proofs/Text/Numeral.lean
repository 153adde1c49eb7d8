import UniqueJobs.Text.Numeral

/-!
Numbers that are written and read again. The decimal text of a number within the bound is read as
that number, so what is kept as a text under a name compares as the number it came from.
-/

namespace UniqueJobs.Text

theorem toNat_of_isDigit {c : Char} (h : c.isDigit = true) : 48 ≤ c.toNat ∧ c.toNat ≤ 57 := by
  simp only [Char.isDigit, Bool.and_eq_true, decide_eq_true_eq] at h
  exact ⟨h.1, h.2⟩

theorem digitValue_of_isDigit {c : Char} (h : c.isDigit = true) :
    digitValue c = some (c.toNat - 48) := by
  have hc := toNat_of_isDigit h
  simp only [digitValue, hc, and_self, ↓reduceIte]

theorem le_ofDigitChars {n : Nat} (l : List Char) : n ≤ Nat.ofDigitChars 10 l n := by
  induction l generalizing n with
  | nil => exact Nat.le_refl n
  | cons c rest ih =>
    rw [Nat.ofDigitChars_cons]
    have h := ih (n := 10 * n + (c.toNat - '0'.toNat))
    omega

theorem readDigits_cons_of_isDigit {c : Char} (hc : c.isDigit = true) (n bound : Nat)
    (beyond : NumeralFault) (rest : List Char) :
    readDigits 10 bound beyond n (c :: rest) =
      if 10 * n + (c.toNat - '0'.toNat) ≤ bound then
        readDigits 10 bound beyond (10 * n + (c.toNat - '0'.toNat)) rest
      else .error beyond := by
  have hvalue : c.toNat - 48 < 10 := by
    have := toNat_of_isDigit hc
    omega
  have hstep : n * 10 + (c.toNat - 48) = 10 * n + (c.toNat - '0'.toNat) := by
    rw [Nat.mul_comm]
    rfl
  simp only [readDigits, digitValue_of_isDigit hc, Option.filter, hvalue, decide_true, ↓reduceIte,
    hstep]

/-- Digits are read to their value as soon as the value is within the bound, for those before the
last one have a smaller value. -/
theorem readDigits_of_isDigit {l : List Char} {n bound : Nat} (beyond : NumeralFault)
    (hl : ∀ c ∈ l, c.isDigit = true) (hbound : Nat.ofDigitChars 10 l n ≤ bound) :
    readDigits 10 bound beyond n l = .ok (Nat.ofDigitChars 10 l n) := by
  induction l generalizing n with
  | nil => rfl
  | cons c rest ih =>
    rw [List.forall_mem_cons] at hl
    rw [Nat.ofDigitChars_cons] at hbound ⊢
    rw [readDigits_cons_of_isDigit hl.1, if_pos (Nat.le_trans (le_ofDigitChars rest) hbound)]
    exact ih hl.2 hbound

/-- The first digit that leads beyond the bound is where a greater number is refused. -/
theorem readDigits_of_lt {l : List Char} {n bound : Nat} (beyond : NumeralFault)
    (hl : ∀ c ∈ l, c.isDigit = true) (hn : n ≤ bound) (hbound : bound < Nat.ofDigitChars 10 l n) :
    readDigits 10 bound beyond n l = .error beyond := by
  induction l generalizing n with
  | nil => exact absurd hn (Nat.not_le_of_lt hbound)
  | cons c rest ih =>
    rw [List.forall_mem_cons] at hl
    rw [Nat.ofDigitChars_cons] at hbound
    rw [readDigits_cons_of_isDigit hl.1]
    split
    · rename_i hle
      exact ih hl.2 hle hbound
    · rfl

theorem isDigit_of_mem_repr {n : Nat} : ∀ c ∈ n.repr.toList, c.isDigit = true := by
  intro c hc
  rw [Nat.repr_eq_ofList_toDigits, String.toList_ofList] at hc
  exact Nat.isDigit_of_mem_toDigits (by decide) (by decide) hc

theorem ofDigitChars_repr (n : Nat) : Nat.ofDigitChars 10 n.repr.toList 0 = n := by
  rw [Nat.repr_eq_ofList_toDigits, String.toList_ofList]
  exact Nat.ofDigitChars_ten_toDigits

theorem readDigits_repr {n bound : Nat} (beyond : NumeralFault) (h : n ≤ bound) :
    readDigits 10 bound beyond 0 n.repr.toList = .ok n := by
  have hvalue := ofDigitChars_repr n
  rw [readDigits_of_isDigit beyond isDigit_of_mem_repr (by rwa [hvalue]), hvalue]

theorem readDigits_repr_of_lt {n bound : Nat} (beyond : NumeralFault) (h : bound < n) :
    readDigits 10 bound beyond 0 n.repr.toList = .error beyond :=
  readDigits_of_lt beyond isDigit_of_mem_repr (Nat.zero_le bound)
    (Nat.lt_of_lt_of_eq h (ofDigitChars_repr n).symm)

theorem exists_repr_eq_cons (n : Nat) :
    ∃ c rest, n.repr.toList = c :: rest ∧ c.isDigit = true := by
  have hne : n.repr.toList ≠ [] := by
    rw [Nat.repr_eq_ofList_toDigits, String.toList_ofList]
    exact Nat.toDigits_ne_nil
  obtain ⟨c, rest, h⟩ := List.exists_cons_of_ne_nil hne
  have hc : c ∈ n.repr.toList := by
    rw [h]
    exact List.mem_cons_self
  exact ⟨c, rest, h, isDigit_of_mem_repr c hc⟩

theorem readNat_repr_eq (n bound : Nat) :
    readNat 10 bound n.repr.toList = readDigits 10 bound .tooLarge 0 n.repr.toList := by
  obtain ⟨c, rest, htext, hc⟩ := exists_repr_eq_cons n
  rw [htext]
  have hplus : c ≠ '+' := by
    rintro rfl
    cases hc
  have hminus : c ≠ '-' := by
    rintro rfl
    cases hc
  rw [readNat]
  · exact List.cons_ne_nil c rest
  · intro heq
    exact hplus (List.cons.inj heq).1
  · intro heq
    exact hminus (List.cons.inj heq).1
  · intro rest' heq
    exact hplus (List.cons.inj heq).1

theorem readNat_repr {n bound : Nat} (h : n ≤ bound) : readNat 10 bound n.repr.toList = .ok n := by
  rw [readNat_repr_eq, readDigits_repr .tooLarge h]

theorem readNat_repr_of_lt {n bound : Nat} (h : bound < n) :
    readNat 10 bound n.repr.toList = .error .tooLarge := by
  rw [readNat_repr_eq, readDigits_repr_of_lt .tooLarge h]

theorem toInt_bounds (n : Int64) :
    -0x8000_0000_0000_0000 ≤ n.toInt ∧ n.toInt ≤ 0x7fff_ffff_ffff_ffff := by
  have hlow := n.le_toInt
  have hhigh := n.toInt_lt
  omega

theorem toList_toString_negSucc (m : Nat) :
    (toString (Int.negSucc m)).toList = '-' :: (m + 1).repr.toList := by
  change ("-" ++ (m + 1).repr).toList = _
  rw [String.toList_append]
  rfl

/-- A number of 64 bits with a sign is read back from its decimal text. -/
theorem readInt64_toString (n : Int64) : readInt64 (toString n.toInt).toList = .ok n := by
  have hbounds := toInt_bounds n
  have hback := n.ofInt_toInt
  rcases hn : n.toInt with m | m
  · have hm : n.toInt = (m : Int) := hn
    rw [hn] at hback
    have hle : m ≤ 0x7fff_ffff_ffff_ffff := by omega
    have hread := readNat_repr hle
    obtain ⟨c, rest, htext, hc⟩ := exists_repr_eq_cons m
    have hminus : c ≠ '-' := by
      rintro rfl
      cases hc
    change readInt64 m.repr.toList = _
    rw [htext] at hread ⊢
    rw [readInt64, hread]
    · exact congrArg _ hback
    · intro heq
      exact hminus (List.cons.inj heq).1
    · intro rest' heq
      exact hminus (List.cons.inj heq).1
  · rw [hn] at hbounds hback
    have hle : m + 1 ≤ 0x8000_0000_0000_0000 := by omega
    have hread := readDigits_repr .tooSmall hle
    obtain ⟨c, rest, htext, -⟩ := exists_repr_eq_cons (m + 1)
    rw [toList_toString_negSucc]
    rw [htext] at hread ⊢
    rw [readInt64, hread]
    · exact congrArg Except.ok hback
    · simp

end UniqueJobs.Text
