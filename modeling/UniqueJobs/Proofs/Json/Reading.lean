import UniqueJobs.Proofs.Json.Number
import UniqueJobs.Proofs.Json.Text

/-!
Documents read back. A document without unreadable parts, nested no deeper than there is room for, is
read from its own text, and what stands after the text is left. Main statement: `read?_compact`.
-/

namespace UniqueJobs.Json

mutual

/-- How deep arrays and objects are nested. -/
def depth : Json → Nat
  | .array items => depthOfItems items + 1
  | .object members => depthOfMembers members + 1
  | _ => 0

def depthOfItems : List Json → Nat
  | [] => 0
  | j :: rest => max (depth j) (depthOfItems rest)

def depthOfMembers : List (String × Json) → Nat
  | [] => 0
  | (_, j) :: rest => max (depth j) (depthOfMembers rest)

end

mutual

/-- No part is unreadable. -/
def Denotes : Json → Prop
  | .array items => DenoteItems items
  | .object members => DenoteMembers members
  | .unreadable => False
  | _ => True

def DenoteItems : List Json → Prop
  | [] => True
  | j :: rest => Denotes j ∧ DenoteItems rest

def DenoteMembers : List (String × Json) → Prop
  | [] => True
  | (_, j) :: rest => Denotes j ∧ DenoteMembers rest

end

theorem denoteItems_iff {l : List Json} : DenoteItems l ↔ ∀ j ∈ l, Denotes j := by
  induction l with
  | nil => simp [DenoteItems]
  | cons j rest ih => simp [DenoteItems, ih]

theorem denoteMembers_iff {l : List (String × Json)} :
    DenoteMembers l ↔ ∀ e ∈ l, Denotes e.2 := by
  induction l with
  | nil => simp [DenoteMembers]
  | cons e rest ih =>
    obtain ⟨name, j⟩ := e
    simp [DenoteMembers, ih]

mutual

theorem denotes_of_settled {j : Json} (h : j.Settled) : j.Denotes := by
  match j with
  | .array items => exact denoteItems_of_settled h
  | .object members => exact denoteMembers_of_settled h.2
  | .unreadable => exact h.elim
  | .null | .bool _ | .number _ | .string _ => trivial

theorem denoteItems_of_settled {l : List Json} (h : SettledItems l) : DenoteItems l := by
  match l with
  | [] => trivial
  | j :: rest => exact ⟨denotes_of_settled h.1, denoteItems_of_settled h.2⟩

theorem denoteMembers_of_settled {l : List (String × Json)} (h : SettledMembers l) :
    DenoteMembers l := by
  match l with
  | [] => trivial
  | (name, j) :: rest => exact ⟨denotes_of_settled h.1, denoteMembers_of_settled h.2⟩

end

/-! ### Single values -/

section Value

variable {fuel room : Nat} {rest : List Char}

theorem skipBlanks_cons {c : Char} (h : isBlank c = false) (s : List Char) :
    skipBlanks (c :: s) = c :: s := by
  rw [skipBlanks, List.dropWhile_cons_of_neg (by simp [h])]

theorem readValue_bool (b : Bool) : readValue (fuel + 1) room (chars (.bool b) ++ rest) =
    some (.bool b, rest) := by
  cases b <;> simp [chars, readValue, skipBlanks, isBlank, readWord]

theorem readValue_string (s : String) :
    readValue (fuel + 1) room (quotedText s.toList ++ rest) = some (.string s, rest) := by
  have hread := readText_escaped s.toList rest
  rw [quotedText, List.cons_append, List.append_assoc]
  simp [readValue, skipBlanks, isBlank, hread]

theorem isBlank_of_isDigit {c : Char} (hc : c.isDigit = true) : isBlank c = false := by
  refine Bool.eq_false_iff.mpr fun h ↦ ?_
  simp only [isBlank, Bool.or_eq_true, decide_eq_true_eq] at h
  obtain ((rfl | rfl) | rfl) | rfl := h
  all_goals cases hc

/-- What begins with a digit is read as a number. -/
theorem readValue_digit {c : Char} (hc : c.isDigit = true) (s : List Char) :
    readValue (fuel + 1) room (c :: s) = readNumber false (c :: s) := by
  rw [readValue, skipBlanks_cons (isBlank_of_isDigit hc)]
  dsimp only
  split
  iterate 7 exact absurd hc (by decide)
  rfl

theorem readValue_number (hrest : Closes rest) (n : Number) :
    readValue (fuel + 1) room (n.render ++ rest) = some (.number n, rest) := by
  obtain ⟨negative, l, hrender, hnumber⟩ := exists_literal n
  have hread := l.readNumber_chars hrest negative
  rw [hnumber, Option.map_some, Option.getD_some] at hread
  rw [hrender]
  cases negative with
  | true => simpa [signed, readValue, skipBlanks, isBlank] using hread
  | false =>
    obtain ⟨c, ds, hcons⟩ := List.exists_cons_of_ne_nil l.leads.ne_nil
    have hc : c.isDigit = true := l.digits c (hcons ▸ List.mem_cons_self)
    rw [Literal.chars, hcons, List.cons_append, List.cons_append] at hread
    rw [signed, if_neg Bool.false_ne_true, Literal.chars, hcons, List.cons_append,
      List.cons_append, readValue_digit hc, hread]

end Value

/-! ### Lists of values -/

/-- Neither a blank nor a closing bracket, as the first character of every value is. -/
def Opening (c : Char) : Prop := isBlank c = false ∧ c ≠ ']' ∧ c ≠ '\x7d'

theorem opening_of_isDigit {c : Char} (hc : c.isDigit = true) : Opening c := by
  refine ⟨isBlank_of_isDigit hc, ?_, ?_⟩
  all_goals
    intro h
    subst h
    cases hc

theorem exists_chars_eq_cons (j : Json) : ∃ c s, chars j = c :: s ∧ Opening c := by
  cases j with
  | null => exact ⟨'n', _, rfl, by simp [Opening, isBlank]⟩
  | bool b => cases b <;> exact ⟨_, _, rfl, by simp [Opening, isBlank]⟩
  | number n =>
    obtain ⟨negative, l, hrender, -⟩ := exists_literal n
    obtain ⟨c, ds, hcons⟩ := List.exists_cons_of_ne_nil l.leads.ne_nil
    rw [chars, hrender, Literal.chars, hcons]
    cases negative with
    | true => exact ⟨'-', _, rfl, by simp [Opening, isBlank]⟩
    | false => exact ⟨c, _, rfl, opening_of_isDigit (l.digits c (hcons ▸ List.mem_cons_self))⟩
  | string s => exact ⟨'"', _, rfl, by simp [Opening, isBlank]⟩
  | array items => exact ⟨'[', _, rfl, by simp [Opening, isBlank]⟩
  | object members => exact ⟨'\x7b', _, rfl, by simp [Opening, isBlank]⟩
  | unreadable => exact ⟨'n', _, rfl, by simp [Opening, isBlank]⟩

theorem itemChars_cons (j k : Json) (rest : List Json) :
    itemChars (j :: k :: rest) = chars j ++ ',' :: itemChars (k :: rest) := by
  rw [itemChars]
  simp

theorem memberChars_cons (name : String) (j : Json) (e : String × Json)
    (rest : List (String × Json)) :
    memberChars ((name, j) :: e :: rest) =
      quotedText name.toList ++ ':' :: (chars j ++ ',' :: memberChars (e :: rest)) := by
  rw [memberChars]
  simp

theorem exists_itemChars_eq_cons (j : Json) (items : List Json) :
    ∃ c s, itemChars (j :: items) = c :: s ∧ Opening c := by
  obtain ⟨c, s, hcons, hc⟩ := exists_chars_eq_cons j
  cases items with
  | nil => exact ⟨c, s, hcons, hc⟩
  | cons k items => exact ⟨c, _, by rw [itemChars_cons, hcons, List.cons_append], hc⟩

theorem exists_memberChars_eq_cons (e : String × Json) (members : List (String × Json)) :
    ∃ s, memberChars (e :: members) = '"' :: s := by
  obtain ⟨name, j⟩ := e
  cases members with
  | nil => exact ⟨_, rfl⟩
  | cons e members => exact ⟨_, by rw [memberChars_cons, quotedText, List.cons_append]⟩

section Lists

variable {fuel room : Nat} {rest : List Char}

theorem readValue_array_nil (hroom : room ≠ 0) :
    readValue (fuel + 1) room (chars (.array []) ++ rest) = some (.array [], rest) := by
  simp [chars, itemChars, readValue, skipBlanks, isBlank, hroom]

theorem readValue_array {j : Json} {items : List Json} (hroom : room ≠ 0)
    (h : readItems fuel (room - 1) (itemChars (j :: items) ++ ']' :: rest) =
      some (j :: items, rest)) :
    readValue (fuel + 1) room (chars (.array (j :: items)) ++ rest) =
      some (.array (j :: items), rest) := by
  obtain ⟨c, s, hcons, hblank, hclosing, -⟩ := exists_itemChars_eq_cons j items
  rw [hcons, List.cons_append] at h
  rw [chars, hcons]
  simp [readValue, skipBlanks_cons hblank, skipBlanks_cons (show isBlank '[' = false from rfl),
    hclosing, h, hroom]

theorem readItems_cons {j : Json} {items : List Json} {s : List Char}
    (h : readValue fuel room (chars j ++ ',' :: s) = some (j, ',' :: s))
    (hs : readItems fuel room s = some (items, rest)) :
    readItems (fuel + 1) room (chars j ++ ',' :: s) = some (j :: items, rest) := by
  simp [readItems, h, hs, skipBlanks, isBlank]

theorem readValue_object_nil (hroom : room ≠ 0) :
    readValue (fuel + 1) room (chars (.object []) ++ rest) = some (.object [], rest) := by
  simp [chars, memberChars, readValue, skipBlanks, isBlank, hroom]

theorem readValue_object {e : String × Json} {members : List (String × Json)} (hroom : room ≠ 0)
    (h : readMembers fuel (room - 1) (memberChars (e :: members) ++ '\x7d' :: rest) =
      some (some (e :: members), rest)) :
    readValue (fuel + 1) room (chars (.object (e :: members)) ++ rest) =
      some (.object (e :: members), rest) := by
  obtain ⟨s, hcons⟩ := exists_memberChars_eq_cons e members
  rw [hcons, List.cons_append] at h
  rw [chars, hcons]
  simp [readValue, skipBlanks, isBlank, h, hroom]

theorem readMembers_last {name : String} {j : Json}
    (h : readValue fuel room (chars j ++ '\x7d' :: rest) = some (j, '\x7d' :: rest)) :
    readMembers (fuel + 1) room (quotedText name.toList ++ ':' :: (chars j ++ '\x7d' :: rest)) =
      some (some [(name, j)], rest) := by
  have hread := readText_escaped name.toList (':' :: (chars j ++ '\x7d' :: rest))
  rw [quotedText, List.cons_append, List.append_assoc]
  simp [readMembers, h, hread, skipBlanks, isBlank]

theorem readMembers_cons {name : String} {j : Json} {members : List (String × Json)}
    {s : List Char} (h : readValue fuel room (chars j ++ ',' :: s) = some (j, ',' :: s))
    (hs : readMembers fuel room s = some (some members, rest)) :
    readMembers (fuel + 1) room (quotedText name.toList ++ ':' :: (chars j ++ ',' :: s)) =
      some (some ((name, j) :: members), rest) := by
  have hread := readText_escaped name.toList (':' :: (chars j ++ ',' :: s))
  rw [quotedText, List.cons_append, List.append_assoc]
  simp [readMembers, h, hs, hread, skipBlanks, isBlank]

end Lists

/-! ### Documents -/

mutual

/-- Two units of fuel for each character are enough: one to read the value that begins there, one to
go on with the list it is in. -/
theorem readValue_chars {j : Json} {fuel room : Nat} {rest : List Char} (h : j.Denotes)
    (hroom : j.depth ≤ room) (hfuel : 2 * (chars j).length ≤ fuel) (hrest : Closes rest) :
    readValue fuel room (chars j ++ rest) = some (j, rest) := by
  obtain ⟨fuel, rfl⟩ : ∃ n, fuel = n + 1 := by
    obtain ⟨c, s, hcons, -⟩ := exists_chars_eq_cons j
    rw [hcons, List.length_cons] at hfuel
    exact ⟨fuel - 1, by omega⟩
  match j with
  | .null => exact readValue_null fuel room rest
  | .bool b => exact readValue_bool b
  | .number n => exact readValue_number hrest n
  | .string s => exact readValue_string s
  | .array items =>
    rw [depth] at hroom
    rw [chars, List.length_cons, List.length_append] at hfuel
    have hread (hne : items ≠ []) : readItems fuel (room - 1) (itemChars items ++ ']' :: rest) =
        some (items, rest) := readItems_chars hne h (by omega) (by omega)
    cases items with
    | nil => exact readValue_array_nil (by omega)
    | cons k items => exact readValue_array (by omega) (hread (List.cons_ne_nil k items))
  | .object members =>
    rw [depth] at hroom
    rw [chars, List.length_cons, List.length_append] at hfuel
    have hread (hne : members ≠ []) :
        readMembers fuel (room - 1) (memberChars members ++ '\x7d' :: rest) =
          some (some members, rest) := readMembers_chars hne h (by omega) (by omega)
    cases members with
    | nil => exact readValue_object_nil (by omega)
    | cons e members => exact readValue_object (by omega) (hread (List.cons_ne_nil e members))
  | .unreadable => exact h.elim

theorem readItems_chars {l : List Json} {fuel room : Nat} {rest : List Char} (hne : l ≠ [])
    (h : DenoteItems l) (hroom : depthOfItems l ≤ room)
    (hfuel : 2 * (itemChars l).length + 1 ≤ fuel) :
    readItems fuel room (itemChars l ++ ']' :: rest) = some (l, rest) := by
  obtain ⟨fuel, rfl⟩ : ∃ n, fuel = n + 1 := ⟨fuel - 1, by omega⟩
  match l with
  | [] => exact absurd rfl hne
  | [j] =>
    rw [depthOfItems] at hroom
    rw [itemChars] at hfuel ⊢
    exact readItems_last (readValue_chars h.1 (by omega) (by omega) (.inr (.inl rfl)))
  | j :: k :: more =>
    rw [depthOfItems] at hroom
    rw [itemChars_cons, List.length_append, List.length_cons] at hfuel
    rw [itemChars_cons, List.append_assoc, List.cons_append]
    exact readItems_cons (readValue_chars h.1 (by omega) (by omega) (.inl rfl))
      (readItems_chars (List.cons_ne_nil k more) h.2 (by omega) (by omega))

theorem readMembers_chars {l : List (String × Json)} {fuel room : Nat} {rest : List Char}
    (hne : l ≠ []) (h : DenoteMembers l) (hroom : depthOfMembers l ≤ room)
    (hfuel : 2 * (memberChars l).length + 1 ≤ fuel) :
    readMembers fuel room (memberChars l ++ '\x7d' :: rest) = some (some l, rest) := by
  obtain ⟨fuel, rfl⟩ : ∃ n, fuel = n + 1 := ⟨fuel - 1, by omega⟩
  match l with
  | [] => exact absurd rfl hne
  | [(name, j)] =>
    rw [depthOfMembers] at hroom
    rw [memberChars, List.length_append, List.length_cons] at hfuel
    rw [memberChars, List.append_assoc, List.cons_append]
    exact readMembers_last (readValue_chars h.1 (by omega) (by omega) (.inr (.inr rfl)))
  | (name, j) :: e :: more =>
    rw [depthOfMembers] at hroom
    rw [memberChars_cons, List.length_append, List.length_cons, List.length_append,
      List.length_cons] at hfuel
    rw [memberChars_cons, List.append_assoc, List.cons_append, List.append_assoc, List.cons_append]
    exact readMembers_cons (readValue_chars h.1 (by omega) (by omega) (.inl rfl))
      (readMembers_chars (List.cons_ne_nil e more) h.2 (by omega) (by omega))

end

/-- A document is read back from its text. -/
theorem read?_compact {j : Json} {room : Nat} (h : j.Denotes) (hroom : j.depth ≤ room) :
    read? room j.compact = some j := by
  have hread : readValue (2 * (chars j).length + 2) room (chars j ++ []) = some (j, []) :=
    readValue_chars h hroom (by omega) trivial
  rw [List.append_nil] at hread
  simp [read?, compact, hread, skipBlanks]

/-- Documents with one text are one document. -/
theorem chars_injective {j j' : Json} (h : j.Denotes) (h' : j'.Denotes)
    (heq : chars j = chars j') : j = j' := by
  have hcompact : j.compact = j'.compact := congrArg String.ofList heq
  have hread := read?_compact h (Nat.le_max_left j.depth j'.depth)
  rw [hcompact, read?_compact h' (Nat.le_max_right j.depth j'.depth)] at hread
  exact (Option.some.inj hread).symm

end UniqueJobs.Json
