import UniqueJobs.Text.Numeral
import UniqueJobs.Text.Quoted

/-!
Positions in the write-ahead log of a database, written as two numbers in base sixteen with a slash
between, and the distance from one to another in bytes.
-/

namespace UniqueJobs

/-- Why a location is no position. -/
inductive LsnFault
  | noSlash
  | numeral (f : Text.NumeralFault)
  | tooFar (baseline : String)
  | other (reason : String)
  deriving DecidableEq

def LsnFault.message : LsnFault → String
  | .noSlash => "missing '/'"
  | .numeral f => f.message
  | .tooFar baseline => s!"too far from {baseline}"
  | .other reason => reason

structure LsnError where
  location : String
  fault : LsnFault
  deriving DecidableEq

def LsnError.message (e : LsnError) : String :=
  s!"invalid WAL location {Text.quoted e.location}: {e.fault.message}"

namespace Lsn

/-- The parts of a text around its first slash. -/
def splitSlash : List Char → Option (List Char × List Char)
  | [] => none
  | c :: rest =>
    if c = '/' then some ([], rest)
    else (splitSlash rest).map fun (before, after) ↦ (c :: before, after)

/-- A half of a position: a number below `2 ^ 32` in base sixteen. -/
def half (s : List Char) : Except Text.NumeralFault Nat := Text.readNat 16 (UInt32.size - 1) s

/-- The position that a location names: its first half counts units of `2 ^ 32`. -/
def parse (location : String) : Except LsnError Nat :=
  match splitSlash location.toList with
  | none => .error ⟨location, .noSlash⟩
  | some (high, low) =>
    match half high with
    | .error f => .error ⟨location, .numeral f⟩
    | .ok high =>
      match half low with
      | .error f => .error ⟨location, .numeral f⟩
      | .ok low => .ok (high * UInt32.size + low)

/-- Bytes by which a location is ahead of a baseline, if 64 bits with a sign can hold them. -/
def distance (location baseline : String) : Except LsnError Int64 :=
  match parse location with
  | .error e => .error e
  | .ok a =>
    match parse baseline with
    | .error e => .error e
    | .ok b =>
      let d : Int := a - b
      if -0x8000_0000_0000_0000 ≤ d ∧ d < 0x8000_0000_0000_0000 then .ok (Int64.ofInt d)
      else .error ⟨location, .tooFar baseline⟩

end Lsn

end UniqueJobs
