import UniqueJobs.Proofs.Json.Reading

/-!
Where an array can begin. A reader that only tells texts from the rest and counts brackets stands
outside everything again when an array is over, and not before. Begun inside a text of one array, the
text of another never leads it outside, for what one takes for texts the other takes for the rest.
So an array never ends with a colon and an array. Main statement: `cut_unique`.
-/

namespace UniqueJobs.Json

/-- Where a reader stands: outside texts or inside one, with so many brackets open. Outside all
brackets only an array may begin, and outside texts no backslash may stand. -/
inductive Scan
  | outside (opened : Nat)
  | inside (opened : Nat)
  | escaped (opened : Nat)
  | stuck
  deriving DecidableEq

namespace Scan

def step : Scan → Char → Scan
  | .outside 0, c => if c = '[' then .outside 1 else .stuck
  | .outside (n + 1), c =>
    if c = '"' then .inside (n + 1)
    else if c = '\\' then .stuck
    else if c = '[' ∨ c = '\x7b' then .outside (n + 2)
    else if c = ']' ∨ c = '\x7d' then .outside n
    else .outside (n + 1)
  | .inside n, c =>
    if c = '"' then .outside n else if c = '\\' then .escaped n else .inside n
  | .escaped n, _ => .inside n
  | .stuck, _ => .stuck

def run (q : Scan) (s : List Char) : Scan := s.foldl step q

@[simp] theorem run_cons (q : Scan) (c : Char) (s : List Char) :
    run q (c :: s) = run (step q c) s := rfl

@[simp] theorem run_append (q : Scan) (a b : List Char) : run q (a ++ b) = run (run q a) b :=
  List.foldl_append

theorem run_stuck (s : List Char) : run .stuck s = .stuck := by
  induction s with
  | nil => rfl
  | cons c s ih => exact ih

end Scan

/-! ### What the text of a document is made of -/

/-- Neither a quotation mark nor a backslash nor a bracket. -/
def Plain (c : Char) : Prop :=
  c ≠ '"' ∧ c ≠ '\\' ∧ c ≠ '[' ∧ c ≠ ']' ∧ c ≠ '\x7b' ∧ c ≠ '\x7d'

instance (c : Char) : Decidable (Plain c) := inferInstanceAs (Decidable (_ ∧ _))

/-- What is true of plain characters and of texts, and stays true when put together or into brackets,
is true of every document. -/
structure Composes (P : List Char → Prop) : Prop where
  plain : ∀ s, (∀ c ∈ s, Plain c) → P s
  text : ∀ s, P (quotedText s)
  append : ∀ a b, P a → P b → P (a ++ b)
  array : ∀ s, P s → P ('[' :: (s ++ [']']))
  object : ∀ s, P s → P ('\x7b' :: (s ++ ['\x7d']))

theorem plain_of_isDigit {c : Char} (h : c.isDigit = true) : Plain c := by
  refine ⟨?_, ?_, ?_, ?_, ?_, ?_⟩
  all_goals
    intro heq
    subst heq
    cases h

theorem Literal.plain (l : Literal) : ∀ c ∈ l.chars, Plain c := by
  have hdigits {ds : List Char} (h : AllDigits ds) : ∀ c ∈ ds, Plain c :=
    fun c hc ↦ plain_of_isDigit (h c hc)
  have hfraction : ∀ c ∈ fractionChars l.fraction, Plain c := by
    by_cases hnil : l.fraction = []
    · simp [hnil, fractionChars]
    · rw [fractionChars_of_ne_nil hnil, List.forall_mem_cons]
      exact ⟨by decide, hdigits l.places⟩
  have hexponent : ∀ c ∈ exponentChars l.exponent, Plain c := by
    cases l.exponent with
    | none => simp [exponentChars]
    | some n =>
      have htext : (toString n.natAbs).toList = Nat.toDigits 10 n.natAbs := by simp
      rw [exponentChars, List.forall_mem_cons, List.forall_mem_cons, htext]
      refine ⟨by decide, ?_, hdigits (AllDigits.toDigits _)⟩
      split
      · decide
      · decide
  rw [Literal.chars, List.forall_mem_append, List.forall_mem_append]
  exact ⟨hdigits l.digits, hfraction, hexponent⟩

theorem plain_render (n : Number) : ∀ c ∈ n.render, Plain c := by
  obtain ⟨negative, l, hrender, -⟩ := exists_literal n
  rw [hrender, signed]
  split
  · exact List.forall_mem_cons.mpr ⟨by decide, l.plain⟩
  · exact l.plain

section Composes

variable {P : List Char → Prop} (hP : Composes P)
include hP

theorem Composes.nil : P [] := hP.plain [] (by simp)

theorem Composes.cons {c : Char} (hc : Plain c) {s : List Char} (hs : P s) : P (c :: s) :=
  hP.append [c] s (hP.plain [c] (by simpa using hc)) hs

mutual

theorem Composes.chars (j : Json) : P (chars j) := by
  match j with
  | .null | .unreadable => exact hP.plain _ (by simp [Json.chars, Plain])
  | .bool true | .bool false => exact hP.plain _ (by simp [Json.chars, Plain])
  | .number n => exact hP.plain _ (plain_render n)
  | .string s => exact hP.text s.toList
  | .array items => exact hP.array _ (Composes.itemChars items)
  | .object members => exact hP.object _ (Composes.memberChars members)

theorem Composes.itemChars (l : List Json) : P (itemChars l) := by
  match l with
  | [] => exact hP.nil
  | [j] => exact Composes.chars j
  | j :: k :: rest =>
    rw [itemChars_cons]
    exact hP.append _ _ (Composes.chars j) (hP.cons (by decide) (Composes.itemChars (k :: rest)))

theorem Composes.memberChars (l : List (String × Json)) : P (memberChars l) := by
  match l with
  | [] => exact hP.nil
  | [(name, j)] => exact hP.append _ _ (hP.text _) (hP.cons (by decide) (Composes.chars j))
  | (name, j) :: e :: rest =>
    rw [memberChars_cons]
    exact hP.append _ _ (hP.text _) (hP.cons (by decide)
      (hP.append _ _ (Composes.chars j) (hP.cons (by decide) (Composes.memberChars (e :: rest)))))

end

end Composes

/-! ### Reading along -/

theorem hexDigit_ne {n : Nat} (h : n < 16) : Text.hexDigit n ≠ '"' ∧ Text.hexDigit n ≠ '\\' := by
  have : ∀ n < 16, Text.hexDigit n ≠ '"' ∧ Text.hexDigit n ≠ '\\' := by decide
  exact this n h

/-- A character inside a text is written as itself or begins with a backslash. -/
theorem escapedChar_eq (c : Char) :
    (c ≠ '"' ∧ c ≠ '\\' ∧ escapedChar c = [c]) ∨
      ∃ d s, escapedChar c = '\\' :: d :: s ∧ ∀ e ∈ s, e ≠ '"' ∧ e ≠ '\\' := by
  unfold escapedChar
  split
  iterate 7 exact .inr ⟨_, [], rfl, by simp⟩
  · rename_i hquote hslash _ _ _ _ _
    split
    · rename_i hcontrol
      have hhigh := hexDigit_ne (n := c.toNat / 16) (by omega)
      have hlow := hexDigit_ne (n := c.toNat % 16) (by omega)
      refine .inr ⟨'u', _, rfl, ?_⟩
      simp only [List.forall_mem_cons]
      exact ⟨by decide, by decide, hhigh, hlow, by simp⟩
    · exact .inl ⟨hquote, hslash, rfl⟩

namespace Scan

theorem run_inside (n : Nat) (s : List Char) (h : ∀ c ∈ s, c ≠ '"' ∧ c ≠ '\\') :
    run (.inside n) s = .inside n := by
  induction s with
  | nil => rfl
  | cons c s ih =>
    rw [List.forall_mem_cons] at h
    rw [run_cons, step, if_neg h.1.1, if_neg h.1.2, ih h.2]

theorem run_inside_escapedChar (n : Nat) (c : Char) :
    run (.inside n) (escapedChar c) = .inside n := by
  obtain ⟨hquote, hslash, heq⟩ | ⟨d, s, heq, hs⟩ := escapedChar_eq c
  · rw [heq]
    exact run_inside n [c] (by simpa using ⟨hquote, hslash⟩)
  · rw [heq]
    exact run_inside n s hs

theorem run_inside_escaped (n : Nat) (s : List Char) :
    run (.inside n) (s.flatMap escapedChar) = .inside n := by
  induction s with
  | nil => rfl
  | cons c s ih => rw [List.flatMap_cons, run_append, run_inside_escapedChar, ih]

/-- Begun within brackets, the text of a document leads back to where it was begun. -/
theorem composes_returns :
    Composes fun s ↦ ∀ n, run (.outside (n + 1)) s = .outside (n + 1) where
  plain s hs n := by
    induction s with
    | nil => rfl
    | cons c s ih =>
      obtain ⟨hquote, hslash, h1, h2, h3, h4⟩ := (List.forall_mem_cons.mp hs).1
      rw [run_cons, step, if_neg hquote, if_neg hslash, if_neg (by simp [h1, h3]),
        if_neg (by simp [h2, h4]), ih (List.forall_mem_cons.mp hs).2]
  text s n := by
    rw [quotedText, run_cons, run_append]
    change run (run (.inside (n + 1)) (s.flatMap escapedChar)) ['"'] = _
    rw [run_inside_escaped]
    rfl
  append a b ha hb n := by rw [run_append, ha, hb]
  array s hs n := by
    rw [run_cons, run_append]
    change run (run (.outside (n + 1 + 1)) s) [']'] = _
    rw [hs]
    rfl
  object s hs n := by
    rw [run_cons, run_append]
    change run (run (.outside (n + 1 + 1)) s) ['\x7d'] = _
    rw [hs]
    rfl

/-- Inside a text, or beyond hope. -/
def Within (q : Scan) : Prop := q = .stuck ∨ ∃ n, q = .inside n

/-- Outside texts, or beyond hope. -/
def Without (q : Scan) : Prop := q = .stuck ∨ ∃ n, q = .outside n

theorem Within.run {q : Scan} (h : Within q) {s : List Char} (hs : ∀ c ∈ s, c ≠ '"' ∧ c ≠ '\\') :
    Within (run q s) := by
  obtain rfl | ⟨n, rfl⟩ := h
  · exact .inl (run_stuck s)
  · exact .inr ⟨n, run_inside n s hs⟩

theorem Within.quote {q : Scan} (h : Within q) : Without (step q '"') := by
  obtain rfl | ⟨n, rfl⟩ := h
  · exact .inl rfl
  · exact .inr ⟨n, rfl⟩

theorem Without.quote {q : Scan} (h : Without q) : Within (step q '"') := by
  obtain rfl | ⟨_ | n, rfl⟩ := h
  · exact .inl rfl
  · exact .inl rfl
  · exact .inr ⟨n + 1, rfl⟩

theorem Without.step {q : Scan} (h : Without q) {c : Char} (hc : c ≠ '"') :
    Without (step q c) := by
  obtain rfl | ⟨_ | n, rfl⟩ := h
  · exact .inl rfl
  · rw [Scan.step]
    split
    · exact .inr ⟨1, rfl⟩
    · exact .inl rfl
  · rw [Scan.step, if_neg hc]
    split
    · exact .inl rfl
    · split
      · exact .inr ⟨n + 2, rfl⟩
      · split
        · exact .inr ⟨n, rfl⟩
        · exact .inr ⟨n + 1, rfl⟩

theorem Without.slash {q : Scan} (h : Without q) : Scan.step q '\\' = .stuck := by
  obtain rfl | ⟨_ | n, rfl⟩ := h
  · rfl
  · rfl
  · rfl

theorem Without.escaped {q : Scan} (h : Without q) (s : List Char) :
    Without (run q (s.flatMap escapedChar)) := by
  induction s generalizing q with
  | nil => exact h
  | cons c s ih =>
    rw [List.flatMap_cons, run_append]
    refine ih ?_
    obtain ⟨hquote, -, heq⟩ | ⟨d, more, heq, -⟩ := escapedChar_eq c
    · rw [heq]
      exact h.step hquote
    · rw [heq, run_cons, h.slash, run_stuck]
      exact .inl rfl

/-- Begun inside a text, the text of a document never leads outside: where it opens a text of its
own it closes the one it was begun in, and the other way round. -/
theorem composes_within : Composes fun s ↦ ∀ q, Within q → Within (run q s) where
  plain s hs q hq := hq.run fun c hc ↦ ⟨(hs c hc).1, (hs c hc).2.1⟩
  text s q hq := by
    rw [quotedText, run_cons, run_append]
    exact (hq.quote.escaped s).quote
  append a b ha hb q hq := by
    rw [run_append]
    exact hb _ (ha q hq)
  array s hs q hq := by
    have hopen : Within (run q ['[']) := hq.run (by simp)
    rw [run_cons, run_append]
    exact (hs _ hopen).run (by simp)
  object s hs q hq := by
    have hopen : Within (run q ['\x7b']) := hq.run (by simp)
    rw [run_cons, run_append]
    exact (hs _ hopen).run (by simp)

theorem run_array (items : List Json) : run (.outside 0) (chars (.array items)) = .outside 0 := by
  rw [chars, run_cons, run_append]
  change run (run (.outside (0 + 1)) (itemChars items)) [']'] = _
  rw [composes_returns.itemChars items]
  rfl

theorem step_colon (q : Scan) : Within (step q ':') ∨ ∃ n, step q ':' = .outside (n + 1) := by
  rcases q with (_ | n) | n | n | _
  · exact .inl (.inl rfl)
  · exact .inr ⟨n, rfl⟩
  · exact .inl (.inr ⟨n, rfl⟩)
  · exact .inl (.inr ⟨n, rfl⟩)
  · exact .inl (.inl rfl)

end Scan

/-- No array ends with a colon and an array. -/
theorem array_ne_append_colon (items items' : List Json) (s : List Char) :
    chars (.array items) ≠ s ++ ':' :: chars (.array items') := by
  intro heq
  have hrun := Scan.run_array items
  rw [heq, Scan.run_append, Scan.run_cons] at hrun
  obtain hwithin | ⟨n, houtside⟩ := Scan.step_colon (Scan.run (.outside 0) s)
  · obtain h | ⟨n, h⟩ := Scan.composes_within.chars (.array items') _ hwithin
    · simp [h] at hrun
    · simp [h] at hrun
  · rw [houtside, Scan.composes_returns.chars (.array items') n] at hrun
    simp at hrun

/-- Of a text, a colon and an array it is known where the array begins. -/
theorem cut_unique {w w' : List Char} {items items' : List Json}
    (h : w ++ ':' :: chars (.array items) = w' ++ ':' :: chars (.array items')) :
    w = w' ∧ chars (.array items) = chars (.array items') := by
  obtain ⟨more, hw, hrest⟩ | ⟨more, hw, hrest⟩ := List.append_eq_append_iff.mp h
  · cases more with
    | nil => simpa [hw] using hrest
    | cons c more =>
      rw [List.cons_append, List.cons.injEq] at hrest
      exact absurd hrest.2 (array_ne_append_colon items items' more)
  · cases more with
    | nil => simpa [hw] using hrest.symm
    | cons c more =>
      rw [List.cons_append, List.cons.injEq] at hrest
      exact absurd hrest.2 (array_ne_append_colon items' items more)

end UniqueJobs.Json
