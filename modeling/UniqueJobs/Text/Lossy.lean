/-!
Bytes read as UTF-8, come what may. A character that is broken off becomes U+FFFD, and so does each
byte that none can begin with.
-/

namespace UniqueJobs.Text

/-- A character of which there are bytes still to come. -/
structure Unfinished where
  /-- The number that the bytes so far have given. -/
  value : Nat
  more : Nat
  /-- The range of the next byte. It keeps out numbers that fewer bytes could give, and surrogates. -/
  low : Nat
  high : Nat

def lead? (b : Nat) : Option Unfinished :=
  if 0xc2 ≤ b ∧ b ≤ 0xdf then some ⟨b - 0xc0, 0, 0x80, 0xbf⟩
  else if b = 0xe0 then some ⟨0, 1, 0xa0, 0xbf⟩
  else if b = 0xed then some ⟨13, 1, 0x80, 0x9f⟩
  else if 0xe1 ≤ b ∧ b ≤ 0xef then some ⟨b - 0xe0, 1, 0x80, 0xbf⟩
  else if b = 0xf0 then some ⟨0, 2, 0x90, 0xbf⟩
  else if 0xf1 ≤ b ∧ b ≤ 0xf3 then some ⟨b - 0xf0, 2, 0x80, 0xbf⟩
  else if b = 0xf4 then some ⟨4, 2, 0x80, 0x8f⟩
  else none

def replacement : Char := '\ufffd'

/-- The characters that a byte finishes where none is unfinished, and what it begins. -/
def afresh (b : Nat) : List Char × Option Unfinished :=
  if b < 0x80 then ([Char.ofNat b], none)
  else
    match lead? b with
    | some u => ([], some u)
    | none => ([replacement], none)

/-- The characters that a byte finishes after an unfinished one, and what is unfinished then. -/
def Unfinished.feed (u : Unfinished) (b : Nat) : List Char × Option Unfinished :=
  if u.low ≤ b ∧ b ≤ u.high then
    let value := u.value * 64 + b % 64
    match u.more with
    | 0 => ([Char.ofNat value], none)
    | more + 1 => ([], some ⟨value, more, 0x80, 0xbf⟩)
  else
    let (cs, next) := afresh b
    (replacement :: cs, next)

/-- The characters of bytes that come after those of an unfinished one, if there is any. -/
def readBytes : Option Unfinished → List UInt8 → List Char
  | none, [] => []
  | some _, [] => [replacement]
  | none, b :: rest =>
    let (cs, next) := afresh b.toNat
    cs ++ readBytes next rest
  | some u, b :: rest =>
    let (cs, next) := u.feed b.toNat
    cs ++ readBytes next rest

def ofBytes (bytes : List UInt8) : String := String.ofList (readBytes none bytes)

example : ofBytes [0x61, 0xc3, 0xa9, 0xf0, 0x9f, 0x98, 0x80] = "aé😀" := by decide +kernel

example : ofBytes [0xe2, 0x82, 0x41, 0xed, 0xa0, 0xff] = "\ufffdA\ufffd\ufffd\ufffd" := by
  decide +kernel

end UniqueJobs.Text
