import UniqueJobs.Url.Encoded

/-!
The hosts of URLs: names, and numbers of 128 bits between brackets.
-/

namespace UniqueJobs.Url

inductive Host
  | name (text : String)
  | numeric (text : String)
  deriving DecidableEq

namespace Host

def isForbidden (c : Char) : Bool := c.toNat = 0 || " #/:<>?@[\\]^|".toList.contains c

/-- Sixteen bits: up to four digits of base sixteen. -/
def isGroup (s : List Char) : Bool := 1 ≤ s.length && s.length ≤ 4 && s.all isHexDigit

/-- Eight bits: a decimal number below 256 that begins with no needless zero. -/
def isOctet (s : List Char) : Bool :=
  s.all Char.isDigit && (s.head? ≠ some '0' || s.length = 1) &&
    (Text.readNat 10 255 s).toOption.isSome

/-- Thirty-two bits: four numbers of eight bits with points between them. -/
def isQuad (s : List Char) : Bool :=
  let octets := s.splitOn '.'
  octets.length = 4 && octets.all isOctet

/-- The number of groups, each of its own. At the end of the host four numbers of eight bits may stand
for two groups. -/
def countGroups (final : Bool) : List (List Char) → Option Nat
  | [] => some 0
  | [s] => if isGroup s then some 1 else if final && isQuad s then some 2 else none
  | s :: rest => if isGroup s then (countGroups final rest).map (· + 1) else none

/-- The number of groups with colons between them. -/
def groups? (final : Bool) (s : List Char) : Option Nat :=
  if s.isEmpty then some 0 else countGroups final (s.splitOn ':')

/-- The parts around the first `::`. -/
def splitGap : List Char → Option (List Char × List Char)
  | ':' :: ':' :: rest => some ([], rest)
  | c :: rest => (splitGap rest).map fun (before, after) ↦ (c :: before, after)
  | [] => none

/-- A numeric host has eight groups; one run of zero groups may be left out. -/
def isNumeric (s : List Char) : Bool :=
  match splitGap s with
  | none => groups? true s = some 8
  | some (before, after) =>
    match groups? false before, groups? true after with
    | some a, some b => a + b ≤ 7
    | _, _ => false

def inBrackets? (s : List Char) : Option (List Char) :=
  match s with
  | '[' :: rest => if rest.getLast? = some ']' then some rest.dropLast else none
  | _ => none

def parse? (s : List Char) : Option Host :=
  if s.head? = some '[' then
    match inBrackets? s with
    | some number => if isNumeric number then some (.numeric (String.ofList number)) else none
    | none => none
  else if s.any isForbidden then none
  else some (.name (String.ofList s))

end Host

end UniqueJobs.Url
