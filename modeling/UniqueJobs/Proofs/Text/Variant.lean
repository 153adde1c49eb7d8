import Mathlib
import UniqueJobs.Text.Blank
import UniqueJobs.Proofs.Text.Digits

/-!
Texts that are read as others: with blanks at their ends, which are left out, and with capitals for
small letters. Main statements: `padded_trim` and `trim_of_padded`, that trimming finds the text
between the blanks, and `spelledAs_iff`, that making letters small finds the word.
-/

namespace UniqueJobs.Text

/-- Is a text another one with blanks before and after it? -/
def Padded (s inner : List Char) : Prop :=
  ∃ before after, s = before ++ inner ++ after ∧
    (∀ c ∈ before, isBlank c = true) ∧ ∀ c ∈ after, isBlank c = true

/-- Is a text a word, with any of its letters written as capitals? -/
def SpelledAs (word text : String) : Prop :=
  List.Forall₂ (fun w c ↦ c = w ∨ c = w.toUpper) word.toList text.toList

theorem padded_trim (s : List Char) : Padded s (trim s) := by
  let rest := s.dropWhile isBlank
  have hfront : s.takeWhile isBlank ++ rest = s := List.takeWhile_append_dropWhile
  have hback : trim s ++ (rest.reverse.takeWhile isBlank).reverse = rest := by
    rw [trim, ← List.reverse_append, List.takeWhile_append_dropWhile, List.reverse_reverse]
  refine ⟨s.takeWhile isBlank, (rest.reverse.takeWhile isBlank).reverse, ?_, ?_, ?_⟩
  · rw [List.append_assoc, hback, hfront]
  · exact List.all_eq_true.mp List.all_takeWhile
  · intro c hc
    exact List.all_eq_true.mp List.all_takeWhile c (List.mem_reverse.mp hc)

theorem dropWhile_blank_append {before inner : List Char} (hbefore : ∀ c ∈ before, isBlank c = true)
    (hne : inner ≠ []) (hinner : ∀ c ∈ inner, isBlank c = false) (after : List Char) :
    (before ++ (inner ++ after)).dropWhile isBlank = inner ++ after := by
  obtain ⟨c, rest, rfl⟩ := List.exists_cons_of_ne_nil hne
  have hc := hinner c List.mem_cons_self
  rw [List.dropWhile_append_of_pos hbefore, List.cons_append,
    List.dropWhile_cons_of_neg (by simp [hc])]

theorem trim_of_padded {s inner : List Char} (h : Padded s inner) (hne : inner ≠ [])
    (hinner : ∀ c ∈ inner, isBlank c = false) : trim s = inner := by
  obtain ⟨before, after, rfl, hbefore, hafter⟩ := h
  have hafter' : ∀ c ∈ after.reverse, isBlank c = true :=
    fun c hc ↦ hafter c (List.mem_reverse.mp hc)
  have hinner' : ∀ c ∈ inner.reverse, isBlank c = false :=
    fun c hc ↦ hinner c (List.mem_reverse.mp hc)
  have hback := dropWhile_blank_append hafter' (List.reverse_ne_nil_iff.mpr hne) hinner' []
  rw [List.append_nil] at hback
  rw [trim, List.append_assoc, dropWhile_blank_append hbefore hne hinner, List.reverse_append,
    hback, List.reverse_reverse]

theorem isBlank_of_isDigit {c : Char} {d : Nat} (h : IsDigit 10 c d) : isBlank c = false := by
  have hd : d < 10 := h.1
  rw [← filter_digitValue_eq_some_iff, Option.filter_eq_some_iff, digitValue_eq_some_iff] at h
  obtain ⟨⟨-, hc⟩, -⟩ := h
  rw [if_pos hd, if_pos hd, or_self] at hc
  simp only [isBlank, hc, Bool.or_eq_false_iff, Bool.and_eq_false_iff, decide_eq_false_iff_not]
  omega

theorem Spelled.isBlank {s : List Char} {n : Nat} (h : Spelled 10 s n) :
    ∀ c ∈ s, isBlank c = false := by
  intro c hc
  obtain ⟨d, hd⟩ := h.isDigit_of_mem c hc
  exact isBlank_of_isDigit hd

theorem Numeral.isBlank {s : List Char} {n : Nat} (h : Numeral 10 s n) :
    ∀ c ∈ s, isBlank c = false := by
  cases h with
  | plain hs => exact hs.isBlank
  | signed hs => exact List.forall_mem_cons.mpr ⟨by decide, hs.isBlank⟩

theorem Numeral.ne_nil {s : List Char} {n : Nat} (h : Numeral 10 s n) : s ≠ [] := by
  cases h with
  | plain hs =>
    rintro rfl
    exact not_spelled_nil hs
  | signed hs => exact List.cons_ne_nil _ _

theorem toLower_eq_iff {c w : Char} (hw : w.isLower = true) :
    c.toLower = w ↔ c = w ∨ c = w.toUpper := by
  have hself : w.toLower = w := Char.toLower_eq_of_not_isUpper (Char.not_isUpper_of_isLower hw)
  constructor
  · intro h
    by_cases hc : c.isUpper = true
    · rw [← h, Char.toUpper_toLower_eq_toUpper,
        Char.toUpper_eq_of_not_isLower (Char.not_isLower_of_isUpper hc)]
      exact .inr rfl
    · rw [Char.toLower_eq_of_not_isUpper hc] at h
      exact .inl h
  · rintro (rfl | rfl)
    · exact hself
    · rw [Char.toLower_toUpper_eq_toLower, hself]

theorem map_toLower_eq_iff {word text : List Char} (hword : ∀ w ∈ word, w.isLower = true) :
    text.map Char.toLower = word ↔ List.Forall₂ (fun w c ↦ c = w ∨ c = w.toUpper) word text := by
  induction word generalizing text with
  | nil => simp
  | cons w rest ih =>
    rw [List.forall_mem_cons] at hword
    cases text with
    | nil => simp
    | cons c text =>
      rw [List.map_cons, List.cons_eq_cons, toLower_eq_iff hword.1, ih hword.2, List.forall₂_cons]

theorem spelledAs_iff {word text : String} (hword : ∀ w ∈ word.toList, w.isLower = true) :
    SpelledAs word text ↔ String.ofList (text.toList.map Char.toLower) = word := by
  rw [SpelledAs, ← map_toLower_eq_iff hword, ← String.toList_inj, String.toList_ofList]

end UniqueJobs.Text
