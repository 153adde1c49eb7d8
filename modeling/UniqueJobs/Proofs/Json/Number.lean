import UniqueJobs.Json.Printer
import UniqueJobs.Json.Reader
import UniqueJobs.Proofs.Decimal.Shortest
import UniqueJobs.Proofs.Text.Numeral

/-!
Numbers of documents read back. Every layout of a double is a literal, digits with perhaps a fraction
and perhaps an exponent, which says the shortest decimal of the double and is therefore read as that
double. Main statement: `readNumber_render`.
-/

namespace UniqueJobs.Json

/-- What may stand after a value: nothing, or what goes on with the list it is in or ends it. -/
def Closes : List Char → Prop
  | [] => True
  | c :: _ => c = ',' ∨ c = ']' ∨ c = '\x7d'

/-! ### Runs of digits -/

def AllDigits (ds : List Char) : Prop := ∀ c ∈ ds, c.isDigit = true

/-- No digit stands first. -/
def NoDigit (s : List Char) : Prop := ∀ c ∈ s.head?, isDigit c = false

theorem AllDigits.append {a b : List Char} (ha : AllDigits a) (hb : AllDigits b) :
    AllDigits (a ++ b) := by
  intro c hc
  exact (List.mem_append.mp hc).elim (ha c) (hb c)

theorem AllDigits.zeros (n : Nat) : AllDigits (List.replicate n '0') := by
  intro c hc
  rw [List.eq_of_mem_replicate hc]
  rfl

theorem AllDigits.toDigits (n : Nat) : AllDigits (Nat.toDigits 10 n) :=
  fun _ hc ↦ Nat.isDigit_of_mem_toDigits (by decide) (by decide) hc

theorem isDigit_of_char {c : Char} (h : c.isDigit = true) : isDigit c = true := by
  have := Text.toNat_of_isDigit h
  simp [isDigit, this]

section Run

variable {ds rest : List Char}

theorem takeWhile_digits (hds : AllDigits ds) (hrest : NoDigit rest) :
    (ds ++ rest).takeWhile isDigit = ds := by
  rw [List.takeWhile_append_of_pos fun c hc ↦ isDigit_of_char (hds c hc)]
  cases rest with
  | nil => simp
  | cons c rest => simp [hrest c rfl]

theorem dropWhile_digits (hds : AllDigits ds) (hrest : NoDigit rest) :
    (ds ++ rest).dropWhile isDigit = rest := by
  rw [List.dropWhile_append_of_pos fun c hc ↦ isDigit_of_char (hds c hc)]
  cases rest with
  | nil => rfl
  | cons c rest => simp [hrest c rfl]

end Run

theorem digitsValue_eq (ds : List Char) : digitsValue ds = Nat.ofDigitChars 10 ds 0 := by
  rw [digitsValue, Nat.ofDigitChars_eq_foldl]
  congr
  funext n c
  rw [Nat.mul_comm]
  rfl

theorem digitsValue_toDigits (n : Nat) : digitsValue (Nat.toDigits 10 n) = n := by
  rw [digitsValue_eq, Nat.ofDigitChars_ten_toDigits]

theorem digitsValue_append_zeros (ds : List Char) (n : Nat) :
    digitsValue (ds ++ List.replicate n '0') = digitsValue ds * 10 ^ n := by
  rw [digitsValue_eq, digitsValue_eq, Nat.ofDigitChars_append, Nat.ofDigitChars_replicate_zero,
    Nat.mul_comm]

theorem digitsValue_zeros_append (ds : List Char) (n : Nat) :
    digitsValue (List.replicate n '0' ++ ds) = digitsValue ds := by
  rw [digitsValue_eq, digitsValue_eq, Nat.ofDigitChars_append, Nat.ofDigitChars_replicate_zero,
    Nat.mul_zero]

/-- The digits before the point: the zero alone, or no zero first. -/
def Leads (whole : List Char) : Prop := whole = ['0'] ∨ ∃ c ds, whole = c :: ds ∧ c ≠ '0'

theorem leads_toDigits (n : Nat) : Leads (Nat.toDigits 10 n) := by
  induction n using Nat.strongRecOn with
  | ind n ih =>
    rw [Nat.toDigits_eq_if (by decide)]
    split
    · rename_i hn
      obtain rfl | hpos := Nat.eq_zero_or_pos n
      · exact .inl rfl
      · refine .inr ⟨_, [], rfl, ?_⟩
        have : ∀ n < 10, 0 < n → Nat.digitChar n ≠ '0' := by decide
        exact this n hn hpos
    · rename_i hn
      obtain hzero | ⟨c, ds, hcons, hc⟩ := ih (n / 10) (by omega)
      · have := digitsValue_toDigits (n / 10)
        rw [hzero] at this
        have : digitsValue ['0'] = 0 := rfl
        omega
      · exact .inr ⟨c, ds ++ [Nat.digitChar (n % 10)], by rw [hcons, List.cons_append], hc⟩

theorem Leads.ne_nil {whole : List Char} (h : Leads whole) : whole ≠ [] := by
  obtain rfl | ⟨c, ds, rfl, -⟩ := h
  · simp
  · simp

/-! ### Literals -/

def fractionChars : List Char → List Char
  | [] => []
  | fraction => '.' :: fraction

def exponentChars : Option Int → List Char
  | none => []
  | some n => 'e' :: (if n < 0 then '-' else '+') :: (toString n.natAbs).toList

/-- A number without its sign: digits, perhaps a fraction, perhaps an exponent. -/
structure Literal where
  whole : List Char
  fraction : List Char
  exponent : Option Int
  digits : AllDigits whole
  leads : Leads whole
  places : AllDigits fraction

namespace Literal

def chars (l : Literal) : List Char :=
  l.whole ++ (fractionChars l.fraction ++ exponentChars l.exponent)

/-- The decimal that the literal says. -/
def point (l : Literal) : Double.Point :=
  ⟨digitsValue (l.whole ++ l.fraction), l.exponent.getD 0 - l.fraction.length⟩

/-- A fraction or an exponent marks a double. -/
def number? (negative : Bool) (l : Literal) : Option Number :=
  match l.fraction, l.exponent with
  | [], none => Number.ofWhole? negative (digitsValue l.whole)
  | _, _ => (Double.ofDecimal? negative l.point.count l.point.power).map .double

end Literal

theorem Closes.noDigit {rest : List Char} (h : Closes rest) : NoDigit rest := by
  intro c hc
  cases rest with
  | nil => cases hc
  | cons d rest =>
    obtain rfl : d = c := Option.some.inj hc
    obtain rfl | rfl | rfl := h
    · rfl
    · rfl
    · rfl

section Literal

variable {rest : List Char} (hrest : Closes rest)
include hrest

theorem noDigit_exponentChars (exponent : Option Int) : NoDigit (exponentChars exponent ++ rest) := by
  cases exponent with
  | none => exact hrest.noDigit
  | some n =>
    intro c hc
    obtain rfl : 'e' = c := Option.some.inj hc
    rfl

theorem noDigit_fractionChars (fraction : List Char) (exponent : Option Int) :
    NoDigit (fractionChars fraction ++ (exponentChars exponent ++ rest)) := by
  cases fraction with
  | nil => exact noDigit_exponentChars hrest exponent
  | cons d ds =>
    intro c hc
    obtain rfl : '.' = c := Option.some.inj hc
    rfl

theorem readExponent_minus {ds : List Char} (hds : AllDigits ds) (hne : ds ≠ []) :
    readExponent ('e' :: '-' :: (ds ++ rest)) = some (some (-(digitsValue ds : Int)), rest) := by
  simp only [readExponent, true_or, ↓reduceIte, takeWhile_digits hds hrest.noDigit,
    dropWhile_digits hds hrest.noDigit]

theorem readExponent_plus {ds : List Char} (hds : AllDigits ds) (hne : ds ≠ []) :
    readExponent ('e' :: '+' :: (ds ++ rest)) = some (some (digitsValue ds : Int), rest) := by
  simp only [readExponent, true_or, ↓reduceIte, takeWhile_digits hds hrest.noDigit,
    dropWhile_digits hds hrest.noDigit, Bool.false_eq_true]

theorem readExponent_chars (exponent : Option Int) :
    readExponent (exponentChars exponent ++ rest) = some (exponent, rest) := by
  cases exponent with
  | none =>
    cases rest with
    | nil => rfl
    | cons c rest =>
      have hc : ¬ (c = 'e' ∨ c = 'E') := by
        obtain rfl | rfl | rfl := hrest
        · decide
        · decide
        · decide
      exact readExponent_cons_of_ne hc rest
  | some n =>
    have hdigits : (toString n.natAbs).toList = Nat.toDigits 10 n.natAbs := by
      simp
    have hne := Nat.toDigits_ne_nil (n := n.natAbs) (b := 10)
    have hvalue := digitsValue_toDigits n.natAbs
    rw [exponentChars, hdigits]
    by_cases hn : n < 0
    · rw [if_pos hn]
      refine (readExponent_minus hrest (AllDigits.toDigits _) hne).trans ?_
      rw [hvalue]
      simp only [Option.some.injEq, Prod.mk.injEq, and_true]
      omega
    · rw [if_neg hn]
      refine (readExponent_plus hrest (AllDigits.toDigits _) hne).trans ?_
      rw [hvalue]
      simp only [Option.some.injEq, Prod.mk.injEq, and_true]
      omega

theorem head?_exponentChars_ne (exponent : Option Int) :
    (exponentChars exponent ++ rest).head? ≠ some '.' := by
  cases exponent with
  | none =>
    cases rest with
    | nil => simp [exponentChars]
    | cons c rest =>
      intro h
      obtain rfl : c = '.' := Option.some.inj h
      simp [Closes] at hrest
  | some n => simp [exponentChars]

theorem readFraction_chars {fraction : List Char} (h : AllDigits fraction) (exponent : Option Int) :
    readFraction (fractionChars fraction ++ (exponentChars exponent ++ rest)) =
      some (if fraction = [] then none else some fraction, exponentChars exponent ++ rest) := by
  cases fraction with
  | nil =>
    have hhead := head?_exponentChars_ne hrest exponent
    rw [fractionChars, List.nil_append, if_pos rfl]
    unfold readFraction
    split
    · rename_i heq
      rw [heq] at hhead
      exact absurd rfl hhead
    · rfl
  | cons d ds =>
    have hexponent := noDigit_exponentChars hrest exponent
    have htake := takeWhile_digits h hexponent
    have hdrop := dropWhile_digits h hexponent
    rw [fractionChars, List.cons_append, readFraction, htake, hdrop, if_neg (List.cons_ne_nil d ds)]
    · simp

theorem Literal.readNumber_chars (l : Literal) (negative : Bool) :
    readNumber negative (l.chars ++ rest) =
      some (((l.number? negative).map .number).getD .unreadable, rest) := by
  have htail := noDigit_fractionChars hrest l.fraction l.exponent
  have hfrac := readFraction_chars hrest l.places l.exponent
  have hexp := readExponent_chars hrest l.exponent
  rw [Literal.chars, List.append_assoc, List.append_assoc, readNumber,
    takeWhile_digits l.digits htail, dropWhile_digits l.digits htail, Literal.number?,
    Literal.point]
  split
  · rename_i heq
    exact absurd heq l.leads.ne_nil
  · rename_i heq
    obtain h | ⟨c, ds, h, hc⟩ := l.leads
    · simp [h] at heq
    · rw [h] at heq
      exact absurd (List.cons.inj heq).1 hc
  · simp only [hfrac, hexp]
    cases l.fraction with
    | nil =>
      cases l.exponent with
      | none => simp
      | some n => simp
    | cons d ds => simp

end Literal

/-! ### Doubles are written as literals -/

open Double (Point)

theorem exists_zeros_append_dropWhile (l : List Char) :
    ∃ n, l = List.replicate n '0' ++ l.dropWhile (· = '0') := by
  induction l with
  | nil => exact ⟨0, rfl⟩
  | cons c rest ih =>
    by_cases hc : c = '0'
    · obtain ⟨n, hn⟩ := ih
      refine ⟨n + 1, ?_⟩
      rw [List.dropWhile_cons_of_pos (by simpa using hc), List.replicate_succ, List.cons_append,
        ← hn, hc]
    · exact ⟨0, by rw [List.dropWhile_cons_of_neg (by simpa using hc), List.replicate_zero,
        List.nil_append]⟩

/-- What `dropTrailingZeros` drops are zeros. -/
theorem exists_append_zeros (ds : List Char) :
    ∃ n, ds = Double.dropTrailingZeros ds ++ List.replicate n '0' := by
  obtain ⟨n, hn⟩ := exists_zeros_append_dropWhile ds.reverse
  refine ⟨n, ?_⟩
  rw [Double.dropTrailingZeros, ← List.reverse_inj, List.reverse_append, List.reverse_replicate,
    List.reverse_reverse]
  exact hn

theorem fractionChars_of_ne_nil {ds : List Char} (h : ds ≠ []) : fractionChars ds = '.' :: ds := by
  cases ds with
  | nil => exact absurd rfl h
  | cons d ds => rfl

/-- The literal is a double's and says these digits, the last of which stands for `10 ^ power`,
perhaps with zeros behind them. -/
def Literal.Says (l : Literal) (ds : List Char) (power : Int) : Prop :=
  (l.fraction ≠ [] ∨ l.exponent ≠ none) ∧
    ∃ zeros : Nat, l.point = ⟨digitsValue ds * 10 ^ zeros, power - zeros⟩

theorem Literal.number?_of_marked {l : Literal} (h : l.fraction ≠ [] ∨ l.exponent ≠ none)
    (negative : Bool) : l.number? negative =
      (Double.ofDecimal? negative l.point.count l.point.power).map .double := by
  unfold Literal.number?
  split
  · simp_all
  · rfl

section Layout

variable {c : Char} {ds : List Char} {lead : Int}

theorem exists_literal_of_small (h : AllDigits (c :: ds)) (hlead : lead < 0) :
    ∃ l : Literal,
      ['0', '.'] ++ List.replicate (-lead - 1).toNat '0' ++ (c :: ds) = l.chars ∧
      l.Says (c :: ds) (lead + 1 - (c :: ds).length) := by
  have hne : List.replicate (-lead - 1).toNat '0' ++ c :: ds ≠ [] := by simp
  have hzeros := AllDigits.zeros (-lead - 1).toNat
  refine ⟨⟨['0'], List.replicate (-lead - 1).toNat '0' ++ c :: ds, none, AllDigits.zeros 1, .inl rfl,
    hzeros.append h⟩, ?_, .inl hne, 0, ?_⟩
  · rw [Literal.chars, fractionChars_of_ne_nil hne]
    simp [exponentChars]
  · have hvalue := digitsValue_zeros_append (c :: ds) ((-lead - 1).toNat + 1)
    rw [List.replicate_succ, List.cons_append] at hvalue
    simp only [Literal.point, List.singleton_append, hvalue, Option.getD_none, List.length_append,
      List.length_replicate, Nat.pow_zero, Nat.mul_one]
    congr 1
    omega

theorem exists_literal_of_padded (h : AllDigits (c :: ds)) (hc : c ≠ '0') (hlead : 0 ≤ lead)
    (hlength : (c :: ds).length ≤ lead.toNat + 1) :
    ∃ l : Literal,
      c :: ds ++ List.replicate (lead.toNat + 1 - (c :: ds).length) '0' ++ ['.', '0'] = l.chars ∧
      l.Says (c :: ds) (lead + 1 - (c :: ds).length) := by
  have hzeros := AllDigits.zeros (lead.toNat + 1 - (c :: ds).length)
  refine ⟨⟨c :: ds ++ List.replicate (lead.toNat + 1 - (c :: ds).length) '0', ['0'], none,
    h.append hzeros, .inr ⟨c, _, List.cons_append, hc⟩, AllDigits.zeros 1⟩, ?_, .inl (by simp),
    lead.toNat + 1 - (c :: ds).length + 1, ?_⟩
  · simp [Literal.chars, fractionChars, exponentChars]
  · have hvalue := digitsValue_append_zeros (c :: ds) (lead.toNat + 1 - (c :: ds).length + 1)
    rw [List.replicate_succ', ← List.append_assoc] at hvalue
    simp only [Literal.point, hvalue, Option.getD_none, List.length_singleton]
    congr 1
    omega

theorem exists_literal_of_split (h : AllDigits (c :: ds)) (hc : c ≠ '0') (hlead : 0 ≤ lead)
    (hlength : lead.toNat + 1 < (c :: ds).length) :
    ∃ l : Literal,
      (c :: ds).take (lead.toNat + 1) ++ '.' :: (c :: ds).drop (lead.toNat + 1) = l.chars ∧
      l.Says (c :: ds) (lead + 1 - (c :: ds).length) := by
  have hne : (c :: ds).drop (lead.toNat + 1) ≠ [] := by
    intro hnil
    have := congrArg List.length hnil
    rw [List.length_drop, List.length_nil] at this
    omega
  refine ⟨⟨(c :: ds).take (lead.toNat + 1), (c :: ds).drop (lead.toNat + 1), none,
    fun d hd ↦ h d (List.mem_of_mem_take hd), .inr ⟨c, _, List.take_succ_cons, hc⟩,
    fun d hd ↦ h d (List.mem_of_mem_drop hd)⟩, ?_, .inl hne, 0, ?_⟩
  · rw [Literal.chars, fractionChars_of_ne_nil hne]
    simp [exponentChars]
  · simp only [Literal.point, List.take_append_drop, List.length_drop, Option.getD_none,
      Nat.pow_zero, Nat.mul_one]
    congr 1
    omega

theorem exists_literal_of_exponent (h : AllDigits (c :: ds)) (hc : c ≠ '0') (lead : Int) :
    ∃ l : Literal,
      (c :: ds).take 1 ++ fractionChars ds ++ exponentChars (some lead) = l.chars ∧
      l.Says (c :: ds) (lead + 1 - (c :: ds).length) := by
  refine ⟨⟨[c], ds, some lead, fun d hd ↦ h d (by simpa using .inl (List.mem_singleton.mp hd)),
    .inr ⟨c, [], rfl, hc⟩, fun d hd ↦ h d (List.mem_cons_of_mem c hd)⟩, ?_, .inr (by simp), 0, ?_⟩
  · simp [Literal.chars]
  · simp only [Literal.point, List.singleton_append, Option.getD_some, List.length_cons,
      Nat.pow_zero, Nat.mul_one]
    congr 1
    omega

/-- Whichever way digits are laid out, it is a literal that says them. -/
theorem exists_literal_of_render (h : AllDigits (c :: ds)) (hc : c ≠ '0') (lead : Int) :
    ∃ l : Literal, Number.layout.render (c :: ds) lead = l.chars ∧
      l.Says (c :: ds) (lead + 1 - (c :: ds).length) := by
  rw [Double.Layout.render]
  split
  · split
    · exact exists_literal_of_small h ‹_›
    · dsimp only
      split
      · exact exists_literal_of_padded h hc (by omega) ‹_›
      · exact exists_literal_of_split h hc (by omega) (by omega)
  · obtain ⟨l, hchars, hsays⟩ := exists_literal_of_exponent h hc lead
    refine ⟨l, hchars ▸ ?_, hsays⟩
    cases ds with
    | nil => rfl
    | cons d ds => simp [exponentChars, fractionChars, Number.layout]

end Layout

/-- The digits that are kept begin with the first digit of the number, which is not zero. -/
theorem exists_kept {n : Nat} (h : 0 < n) :
    ∃ c ds zeros, Double.dropTrailingZeros (Nat.toDigits 10 n) = c :: ds ∧ c ≠ '0' ∧
      Nat.toDigits 10 n = c :: ds ++ List.replicate zeros '0' := by
  obtain ⟨zeros, hzeros⟩ := exists_append_zeros (Nat.toDigits 10 n)
  obtain ⟨c, ds, hcons, hc⟩ : ∃ c ds, Nat.toDigits 10 n = c :: ds ∧ c ≠ '0' := by
    refine (leads_toDigits n).resolve_left fun hone ↦ ?_
    have hvalue := digitsValue_toDigits n
    rw [hone] at hvalue
    exact Nat.ne_of_lt h hvalue
  cases hkept : Double.dropTrailingZeros (Nat.toDigits 10 n) with
  | nil =>
    rw [hkept, List.nil_append, hcons] at hzeros
    exact absurd (List.eq_of_mem_replicate (hzeros ▸ List.mem_cons_self)) hc
  | cons c' ds' =>
    rw [hkept] at hzeros
    have hfirst := hcons.symm.trans hzeros
    rw [List.cons_append] at hfirst
    exact ⟨c', ds', zeros, rfl, (List.cons.inj hfirst).1 ▸ hc, hzeros⟩

def signed (negative : Bool) (s : List Char) : List Char := if negative then '-' :: s else s

/-- The literal of a double, sign apart, is read as the double. -/
theorem exists_literal_of_double (d : Double) :
    ∃ l : Literal, d.render Number.layout = signed d.negative l.chars ∧
      l.number? d.negative = some (.double d) := by
  obtain hzero | hpos := Nat.eq_zero_or_pos d.rank
  · refine ⟨⟨['0'], ['0'], none, AllDigits.zeros 1, .inl rfl, AllDigits.zeros 1⟩, ?_, ?_⟩
    · rw [Double.render, if_pos hzero]
      rfl
    · obtain ⟨negative, rank, finite⟩ := d
      subst hzero
      rfl
  · have hrounds := Double.shortest_roundsTo hpos
    have hcount := Double.Point.count_pos_of_roundsTo hrounds hpos
    generalize hp : Double.shortest d.rank = p at *
    obtain ⟨c, ds, zeros, hkept, hc, hdigits⟩ := exists_kept hcount
    have hall : AllDigits (c :: ds) := fun d hd ↦
      AllDigits.toDigits p.count d (hdigits ▸ List.mem_append_left _ hd)
    obtain ⟨l, hchars, hmarked, more, hpoint⟩ := exists_literal_of_render hall hc
      (p.power + (Nat.toDigits 10 p.count).length - 1)
    refine ⟨l, ?_, ?_⟩
    · rw [Double.render, if_neg (Nat.ne_of_gt hpos)]
      simp only [hp, hkept, hchars]
      rfl
    · have hvalue := digitsValue_toDigits p.count
      rw [hdigits, digitsValue_append_zeros] at hvalue
      have hlength := congrArg List.length hdigits
      rw [List.length_append, List.length_replicate] at hlength
      have hpower : p.power + (Nat.toDigits 10 p.count).length - 1 + 1 - (c :: ds).length - zeros =
          p.power := by omega
      rw [Literal.number?_of_marked hmarked, Double.ofDecimal?_of_roundsTo _ hpos, Option.map_some]
      rwa [hpoint, Double.Point.roundsTo_shift, ← Double.Point.roundsTo_shift _ zeros, hvalue,
        hpower]

/-! ### Numbers -/

theorem exists_literal_of_whole {n : Int} (fits : IsWord n) :
    ∃ (negative : Bool) (l : Literal), (toString n).toList = signed negative l.chars ∧
      l.number? negative = some (.whole n fits) := by
  rcases n with m | m
  · refine ⟨false, ⟨Nat.toDigits 10 m, [], none, AllDigits.toDigits m, leads_toDigits m,
      by simp [AllDigits]⟩, ?_, ?_⟩
    · change m.repr.toList = _
      simp [Nat.repr_eq_ofList_toDigits, signed, Literal.chars, fractionChars, exponentChars]
    · have hm : m < UInt64.size := Int.ofNat_lt.mp fits.2
      simp [Literal.number?, digitsValue_toDigits, Number.ofWhole?, hm]
  · refine ⟨true, ⟨Nat.toDigits 10 (m + 1), [], none, AllDigits.toDigits _, leads_toDigits _,
      by simp [AllDigits]⟩, ?_, ?_⟩
    · rw [Text.toList_toString_negSucc]
      simp [Nat.repr_eq_ofList_toDigits, signed, Literal.chars, fractionChars, exponentChars]
    · have hm : m + 1 ≤ 0x8000_0000_0000_0000 := by
        have := fits.1
        omega
      simp [Literal.number?, digitsValue_toDigits, Number.ofWhole?, hm, Int.negSucc_eq]

theorem exists_literal (n : Number) :
    ∃ (negative : Bool) (l : Literal), n.render = signed negative l.chars ∧
      l.number? negative = some n := by
  cases n with
  | whole n fits => exact exists_literal_of_whole fits
  | double d => exact ⟨d.negative, exists_literal_of_double d⟩

end UniqueJobs.Json
