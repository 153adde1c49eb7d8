import UniqueJobs.Text.Numeral

/-!
Messages cut into blocks of sixteen 32-bit words, as the digests of this folder take them: the bytes
of the message, one bit, zeros, and the length of the message in bits, up to whole blocks.
-/

namespace UniqueJobs.Digest

/-- The eight bytes of a number, highest first, reduced modulo `2 ^ 64`. -/
def lengthBytes (n : Nat) : List UInt8 :=
  [56, 48, 40, 32, 24, 16, 8, 0].map fun s ↦ UInt8.ofNat (n >>> s)

/-- Padding after `n` bytes: the zeros are as few as make the whole a multiple of 64 bytes. -/
def padding (n : Nat) : List UInt8 :=
  0x80 :: (List.replicate ((119 - n % 64) % 64) 0 ++ lengthBytes (8 * n))

/-- Words of four bytes, highest first; fewer than four bytes at the end make no word. -/
def words : List UInt8 → List UInt32
  | a :: b :: c :: d :: rest =>
    ((a.toUInt32 <<< 24) ||| (b.toUInt32 <<< 16) ||| (c.toUInt32 <<< 8) ||| d.toUInt32) :: words rest
  | _ => []

def chunks : Nat → List UInt32 → List (List UInt32)
  | 0, _ => []
  | n + 1, ws => ws.take 16 :: chunks n (ws.drop 16)

def blocks (message : List UInt8) : List (List UInt32) :=
  let padded := message ++ padding message.length
  chunks (padded.length / 64) (words padded)

def rotateLeft (x n : UInt32) : UInt32 := (x <<< n) ||| (x >>> (32 - n))

def rotateRight (x n : UInt32) : UInt32 := (x >>> n) ||| (x <<< (32 - n))

def hexWord (w : UInt32) : List Char :=
  [28, 24, 20, 16, 12, 8, 4, 0].map fun s ↦ Text.hexDigit ((w.toNat >>> s) % 16)

def hex (ws : List UInt32) : List Char := ws.flatMap hexWord

theorem length_hex (ws : List UInt32) : (hex ws).length = 8 * ws.length := by
  induction ws with
  | nil => rfl
  | cons w ws ih =>
    rw [hex] at ih
    simp only [hex, List.flatMap_cons, List.length_append, ih, List.length_cons]
    simp only [hexWord, List.length_map, List.length_cons, List.length_nil]
    omega

def utf8 (s : String) : List UInt8 := s.toUTF8.toList

end UniqueJobs.Digest
