import UniqueJobs.Lsn
import UniqueJobs.Proofs.Text.Digits

/-!
Positions in the write-ahead log: which texts name them, and the distance between two of them. Main
statement: `reads_and_measures`.
-/

namespace UniqueJobs.Lsn

open Text (Numeral Spelled IsDigit)

/-- What a location names: two numbers in base sixteen with a slash between. -/
inductive Names : String → Nat → Prop
  | mk {high low : List Char} {x y : Nat} (hhigh : Numeral 16 high x) (hlow : Numeral 16 low y)
      (hx : x < UInt32.size) (hy : y < UInt32.size) :
      Names (String.ofList (high ++ '/' :: low)) (x * UInt32.size + y)

/-- A position as a location, its digits in lower case or in capitals. -/
def written (capitals : Bool) (v : UInt64) : String :=
  let hex (n : Nat) := (Nat.toDigits 16 n).map fun c ↦ if capitals then c.toUpper else c
  String.ofList (hex (v.toNat / UInt32.size) ++ '/' :: hex (v.toNat % UInt32.size))

/-! ### Reading -/

theorem splitSlash_append {a : List Char} (ha : '/' ∉ a) (b : List Char) :
    splitSlash (a ++ '/' :: b) = some (a, b) := by
  induction a with
  | nil => rfl
  | cons c rest ih =>
    rw [List.mem_cons, not_or] at ha
    rw [List.cons_append, splitSlash, if_neg (Ne.symm ha.1), ih ha.2]
    rfl

theorem eq_append_of_splitSlash {s a b : List Char} (h : splitSlash s = some (a, b)) :
    s = a ++ '/' :: b := by
  induction s generalizing a with
  | nil => cases h
  | cons c rest ih =>
    rw [splitSlash] at h
    split at h
    · rename_i hc
      obtain ⟨rfl, rfl⟩ := Prod.mk.inj (Option.some.inj h)
      rw [hc]
      rfl
    · obtain ⟨⟨a', b'⟩, hrest, heq⟩ := Option.map_eq_some_iff.mp h
      obtain ⟨rfl, rfl⟩ := Prod.mk.inj heq
      rw [ih hrest]
      rfl

theorem half_eq_ok_iff {s : List Char} {n : Nat} :
    half s = .ok n ↔ Numeral 16 s n ∧ n < UInt32.size := by
  have hpos : 0 < UInt32.size := by decide
  rw [half, Text.readNat_eq_ok_iff, Nat.le_sub_one_iff_lt hpos]

theorem slash_not_mem {s : List Char} {n : Nat} (h : Numeral 16 s n) : '/' ∉ s := by
  have hspelled : ∀ {s : List Char}, Spelled 16 s n → '/' ∉ s := by
    intro s hs hmem
    obtain ⟨d, hd⟩ := hs.isDigit_of_mem '/' hmem
    exact hd.ne (by decide) rfl
  cases h with
  | plain hs => exact hspelled hs
  | signed hs => simpa using hspelled hs

theorem parse_eq_ok_iff {location : String} {v : Nat} :
    parse location = .ok v ↔ Names location v := by
  constructor
  · intro h
    unfold parse at h
    split at h
    · cases h
    · rename_i high low hsplit
      split at h
      · cases h
      · rename_i x hx
        split at h
        · cases h
        · rename_i y hy
          obtain rfl := Except.ok.inj h
          obtain ⟨hhigh, hxlt⟩ := half_eq_ok_iff.mp hx
          obtain ⟨hlow, hylt⟩ := half_eq_ok_iff.mp hy
          rw [← String.ofList_toList (s := location), eq_append_of_splitSlash hsplit]
          exact .mk hhigh hlow hxlt hylt
  · rintro ⟨hhigh, hlow, hx, hy⟩
    simp only [parse, String.toList_ofList, splitSlash_append (slash_not_mem hhigh),
      half_eq_ok_iff.mpr ⟨hhigh, hx⟩, half_eq_ok_iff.mpr ⟨hlow, hy⟩]

/-- A location that is refused is named in the error. -/
theorem location_of_parse {location : String} {e : LsnError} (h : parse location = .error e) :
    e.location = location := by
  unfold parse at h
  split at h
  · cases h
    rfl
  · split at h
    · cases h
      rfl
    · split at h
      · cases h
        rfl
      · cases h

/-! ### Writing -/

theorem isDigit_digitChar : ∀ d < 16, IsDigit 16 d.digitChar d ∧
    IsDigit 16 d.digitChar.toUpper d := by
  simp only [← Text.filter_digitValue_eq_some_iff]
  decide

theorem spelled_toDigits (capitals : Bool) (n : Nat) :
    Spelled 16 ((Nat.toDigits 16 n).map fun c ↦ if capitals then c.toUpper else c) n := by
  have hdigit : ∀ d < 16, IsDigit 16 (if capitals then d.digitChar.toUpper else d.digitChar) d := by
    intro d hd
    cases capitals with
    | false => exact (isDigit_digitChar d hd).1
    | true => exact (isDigit_digitChar d hd).2
  induction n using Nat.strongRecOn with
  | ind n ih =>
    by_cases hn : n < 16
    · rw [Nat.toDigits_of_lt_base hn]
      exact .digit (hdigit n hn)
    · have hlast := hdigit (n % 16) (Nat.mod_lt _ (by decide))
      have hnext := (ih (n / 16) (by omega)).concat hlast
      rw [Nat.toDigits_of_base_le (by decide) (Nat.le_of_not_lt hn), List.map_append]
      rwa [Nat.div_add_mod'] at hnext

theorem parse_written (capitals : Bool) (v : UInt64) : parse (written capitals v) = .ok v.toNat := by
  have hpos : 0 < UInt32.size := by decide
  have hx : v.toNat / UInt32.size < UInt32.size := Nat.div_lt_of_lt_mul v.toNat_lt
  have hnames := Names.mk (.plain (spelled_toDigits capitals _))
    (.plain (spelled_toDigits capitals _)) hx (Nat.mod_lt v.toNat hpos)
  rw [Nat.div_add_mod'] at hnames
  exact parse_eq_ok_iff.mpr hnames

/-! ### Distances -/

theorem distance_of_parse {location b : String} {p q : Nat} (hp : parse location = .ok p)
    (hq : parse b = .ok q) :
    distance location b =
      if -0x8000_0000_0000_0000 ≤ (p : Int) - q ∧ (p : Int) - q < 0x8000_0000_0000_0000 then
        .ok (Int64.ofInt (p - q))
      else .error ⟨location, .tooFar b⟩ := by
  simp only [distance, hp, hq]

theorem toInt_of_distance {location b : String} {d : Int64} (h : distance location b = .ok d) :
    ∃ p q, parse location = .ok p ∧ parse b = .ok q ∧ d.toInt = (p : Int) - q := by
  cases hp : parse location with
  | error e => simp [distance, hp] at h
  | ok p =>
    cases hq : parse b with
    | error e => simp [distance, hp, hq] at h
    | ok q =>
      refine ⟨p, q, rfl, rfl, ?_⟩
      rw [distance_of_parse hp hq] at h
      split at h
      · rename_i hbounds
        obtain rfl := Except.ok.inj h
        exact Int64.toInt_ofInt_of_le hbounds.1 hbounds.2
      · cases h

/-- A distance has the sign of the order of the positions. -/
theorem sign_of_toInt {d : Int64} {p q : Nat} (h : d.toInt = (p : Int) - q) :
    (0 < d ↔ q < p) ∧ (d = 0 ↔ p = q) ∧ (d < 0 ↔ p < q) := by
  rw [Int64.lt_iff_toInt_lt, Int64.lt_iff_toInt_lt, ← Int64.toInt_inj, h, Int64.toInt_zero]
  omega

/-- Distances from one baseline are in the order of the positions. -/
theorem parse_le_of_distance {location other b : String} {d d' : Int64}
    (h : distance location b = .ok d) (h' : distance other b = .ok d') (hle : d' ≤ d) :
    ∃ p q, parse location = .ok p ∧ parse other = .ok q ∧ q ≤ p := by
  obtain ⟨p, r, hp, hr, hd⟩ := toInt_of_distance h
  obtain ⟨q, r', hq, hr', hd'⟩ := toInt_of_distance h'
  rw [hr] at hr'
  obtain rfl := Except.ok.inj hr'
  rw [Int64.le_iff_toInt_le] at hle
  exact ⟨p, q, hp, hq, by omega⟩

/-- A location is read as the position it names and refused if it names none, and positions are read
back from their locations. The distance of two positions is their difference, and refused where 64
bits with a sign cannot hold it; it never puts them in another order. -/
theorem reads_and_measures :
    (∀ location v, parse location = .ok v ↔ Names location v) ∧
    (∀ location, (¬ ∃ v, Names location v) ↔ ∃ fault, parse location = .error ⟨location, fault⟩) ∧
    (∀ capitals v, parse (written capitals v) = .ok v.toNat) ∧
    (∀ a b p q, Names a p → Names b q →
      if -0x8000_0000_0000_0000 ≤ (p : Int) - q ∧ (p : Int) - q ≤ 0x7fff_ffff_ffff_ffff then
        ∃ d, distance a b = .ok d ∧ d.toInt = (p : Int) - q ∧
          (0 < d ↔ q < p) ∧ (d = 0 ↔ p = q) ∧ (d < 0 ↔ p < q)
      else distance a b = .error ⟨a, .tooFar b⟩) ∧
    ∀ a a' b p p' d d', Names a p → Names a' p' → p ≤ p' →
      distance a b = .ok d → distance a' b = .ok d' → d ≤ d' := by
  refine ⟨fun location v ↦ parse_eq_ok_iff, fun location ↦ ?_, parse_written, ?_, ?_⟩
  · simp only [← parse_eq_ok_iff]
    cases h : parse location with
    | ok v => simp
    | error e =>
      have hlocation := location_of_parse h
      obtain ⟨location', fault⟩ := e
      subst hlocation
      simp
  · intro a b p q ha hb
    have hdistance := distance_of_parse (parse_eq_ok_iff.mpr ha) (parse_eq_ok_iff.mpr hb)
    split
    · rename_i hbounds
      rw [if_pos ⟨hbounds.1, by omega⟩] at hdistance
      obtain ⟨p', q', hp', hq', hd⟩ := toInt_of_distance hdistance
      rw [parse_eq_ok_iff.mpr ha, Except.ok.injEq] at hp'
      rw [parse_eq_ok_iff.mpr hb, Except.ok.injEq] at hq'
      subst hp' hq'
      exact ⟨_, hdistance, hd, sign_of_toInt hd⟩
    · rename_i hbounds
      rwa [if_neg (by omega)] at hdistance
  · intro a a' b p p' d d' ha ha' hle hd hd'
    obtain ⟨x, y, hx, hy, hxy⟩ := toInt_of_distance hd
    obtain ⟨x', y', hx', hy', hxy'⟩ := toInt_of_distance hd'
    rw [parse_eq_ok_iff.mpr ha, Except.ok.injEq] at hx
    rw [parse_eq_ok_iff.mpr ha', Except.ok.injEq] at hx'
    rw [hy, Except.ok.injEq] at hy'
    rw [Int64.le_iff_toInt_le]
    omega

/-- From the end of the log to its beginning is further than 64 bits with a sign can say; from the
middle on it is just not. -/
theorem reads_and_measures_farApart :
    Names "+FFFFFFFF/00ffffFFFF" 0xffff_ffff_ffff_ffff ∧ Names "0/0" 0 ∧
      distance "+FFFFFFFF/00ffffFFFF" "0/0" =
        .error ⟨"+FFFFFFFF/00ffffFFFF", .tooFar "0/0"⟩ ∧
      ∃ d, distance "+FFFFFFFF/00ffffFFFF" "80000000/0" = .ok d ∧ d.toInt = 0x7fff_ffff_ffff_ffff := by
  obtain ⟨hread, -, -, hmeasure, -⟩ := reads_and_measures
  have hend : Names "+FFFFFFFF/00ffffFFFF" 0xffff_ffff_ffff_ffff := (hread _ _).mp rfl
  have hstart : Names "0/0" 0 := (hread _ _).mp rfl
  have hmiddle : Names "80000000/0" 0x8000_0000_0000_0000 := (hread _ _).mp rfl
  have hfar := hmeasure _ _ _ _ hend hstart
  have hnear := hmeasure _ _ _ _ hend hmiddle
  rw [if_neg (by decide)] at hfar
  rw [if_pos (by decide)] at hnear
  obtain ⟨d, hd, hdiff, -⟩ := hnear
  exact ⟨hend, hstart, hfar, d, hd, hdiff⟩

end UniqueJobs.Lsn
