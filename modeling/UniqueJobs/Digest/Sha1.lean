import UniqueJobs.Digest.Block

/-!
The digest SHA-1, by which a server names the procedures it has loaded.
-/

namespace UniqueJobs.Digest

namespace Sha1

structure State where
  a : UInt32
  b : UInt32
  c : UInt32
  d : UInt32
  e : UInt32
  deriving DecidableEq

def State.initial : State := ⟨0x67452301, 0xefcdab89, 0x98badcfe, 0x10325476, 0xc3d2e1f0⟩

def State.toList (s : State) : List UInt32 := [s.a, s.b, s.c, s.d, s.e]

/-- Words of the schedule in reverse, `n` more of them; each is made of those 3, 8, 14 and 16
places before it. -/
def extend : Nat → List UInt32 → List UInt32
  | 0, ws => ws
  | n + 1, ws =>
    let word (i : Nat) := ws.getD i 0
    extend n (rotateLeft (word 2 ^^^ word 7 ^^^ word 13 ^^^ word 15) 1 :: ws)

def schedule (block : List UInt32) : List UInt32 := (extend 64 block.reverse).reverse

/-- The mix of the middle words and the constant of round `i`. -/
def mix (i : Nat) (b c d : UInt32) : UInt32 :=
  if i < 20 then ((b &&& c) ||| (~~~b &&& d)) + 0x5a827999
  else if i < 40 then (b ^^^ c ^^^ d) + 0x6ed9eba1
  else if i < 60 then ((b &&& c) ||| (b &&& d) ||| (c &&& d)) + 0x8f1bbcdc
  else (b ^^^ c ^^^ d) + 0xca62c1d6

def step (s : State) (iw : Nat × UInt32) : State :=
  ⟨rotateLeft s.a 5 + mix iw.1 s.b s.c s.d + s.e + iw.2, s.a, rotateLeft s.b 30, s.c, s.d⟩

def absorb (s : State) (block : List UInt32) : State :=
  let t := ((List.range 80).zip (schedule block)).foldl step s
  ⟨s.a + t.a, s.b + t.b, s.c + t.c, s.d + t.d, s.e + t.e⟩

end Sha1

def sha1 (message : List UInt8) : String :=
  String.ofList (hex ((blocks message).foldl Sha1.absorb Sha1.State.initial).toList)

end UniqueJobs.Digest
