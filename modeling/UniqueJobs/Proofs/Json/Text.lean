import UniqueJobs.Json.Printer
import UniqueJobs.Json.Reader

/-!
Texts inside documents read back. An escape stands for one character and never for half of a pair, so
characters are read one after another. Main statement: `readText_escaped`.
-/

namespace UniqueJobs.Json

open Text (hexDigit)

theorem hexValue_hexDigit {n : Nat} (h : n < 16) : hexValue (hexDigit n) = some n := by
  have : ∀ n < 16, hexValue (hexDigit n) = some n := by decide
  exact this n h

/-- The escape by number of a control character gives the number. -/
theorem unit_hexDigits {n : Nat} (h : n < 0x20) :
    unit '0' '0' (hexDigit (n / 16)) (hexDigit (n % 16)) = some n := by
  have hzero : hexValue '0' = some 0 := rfl
  rw [unit, hzero, hexValue_hexDigit (by omega), hexValue_hexDigit (by omega)]
  simp only [Option.some.injEq]
  omega

/-! ### One piece after another -/

theorem readPieces_escape {e c : Char} (he : e ≠ 'u') (h : escapeValue e = some c)
    (s : List Char) : readPieces ('\\' :: e :: s) =
      (readPieces s).map fun (pieces, rest) ↦ (.char c :: pieces, rest) := by
  rw [readPieces]
  · simp only [Char.reduceEq, ↓reduceIte, h]
    cases readPieces s <;> rfl
  · intro _ _ _ _ _ hu
    exact absurd hu he

theorem readPieces_unit {a b c d : Char} {n : Nat} (h : unit a b c d = some n) (s : List Char) :
    readPieces ('\\' :: 'u' :: a :: b :: c :: d :: s) =
      (readPieces s).map fun (pieces, rest) ↦ (.unit n :: pieces, rest) := by
  rw [readPieces]
  simp only [Char.reduceEq, ↓reduceIte, h]
  cases readPieces s <;> rfl

theorem readPieces_plain {c : Char} (hquote : c ≠ '"') (hslash : c ≠ '\\') (h : ¬ c.toNat < 0x20)
    (s : List Char) : readPieces (c :: s) =
      (readPieces s).map fun (pieces, rest) ↦ (.char c :: pieces, rest) := by
  conv => lhs; unfold readPieces
  simp only [hquote, hslash, h, ↓reduceIte]
  cases readPieces s <;> rfl

/-- A piece that stands for one character whatever comes after it. -/
def Piece.Is (piece : Piece) (c : Char) : Prop :=
  ∀ pieces, joinPieces (piece :: pieces) = (joinPieces pieces).map (c :: ·)

theorem Piece.Is.char (c : Char) : (Piece.char c).Is c := fun _ ↦ rfl

theorem Piece.Is.unit {c : Char} (h : c.toNat < 0x20) : (Piece.unit c.toNat).Is c := by
  intro pieces
  have hlow : ¬ (0xd800 ≤ c.toNat ∧ c.toNat < 0xdc00) := by omega
  have hhigh : ¬ (0xdc00 ≤ c.toNat ∧ c.toNat < 0xe000) := by omega
  conv => lhs; unfold joinPieces
  simp only [hlow, hhigh, ↓reduceIte, Char.ofNat_toNat]

/-- However a character is written, it is read as one piece that stands for it. -/
theorem readPieces_escapedChar (c : Char) :
    ∃ piece : Piece, piece.Is c ∧ ∀ s, readPieces (escapedChar c ++ s) =
      (readPieces s).map fun (pieces, rest) ↦ (piece :: pieces, rest) := by
  unfold escapedChar
  split
  iterate 7 exact ⟨_, .char _, readPieces_escape (by decide) rfl⟩
  · rename_i hquote hslash _ _ _ _ _
    split
    · rename_i hcontrol
      exact ⟨_, .unit hcontrol, readPieces_unit (unit_hexDigits hcontrol)⟩
    · rename_i hcontrol
      exact ⟨_, .char c, readPieces_plain hquote hslash hcontrol⟩

/-- A text is read back from what is written of it before the closing quotation mark. -/
theorem readText_escaped (s rest : List Char) :
    readText (s.flatMap escapedChar ++ '"' :: rest) = some (some s, rest) := by
  suffices ∃ pieces, readPieces (s.flatMap escapedChar ++ '"' :: rest) = some (pieces, rest) ∧
      joinPieces pieces = some s by
    obtain ⟨pieces, hread, hjoin⟩ := this
    simp only [readText, hread, Option.map_some, hjoin]
  induction s with
  | nil => exact ⟨[], readPieces_quote rest, rfl⟩
  | cons c s ih =>
    obtain ⟨pieces, hread, hjoin⟩ := ih
    obtain ⟨piece, his, hpiece⟩ := readPieces_escapedChar c
    refine ⟨piece :: pieces, ?_, ?_⟩
    · rw [List.flatMap_cons, List.append_assoc, hpiece, hread, Option.map_some]
    · rw [his, hjoin, Option.map_some]

end UniqueJobs.Json
