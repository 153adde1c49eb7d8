import UniqueJobs.Json.Basic

/-!
Reading a document from its text. A part that is well formed but denotes nothing does not make the
text wrong: it is kept as `Json.unreadable`, so that a reader of records can pass over it in a
member it has no use for.
-/

namespace UniqueJobs.Json

def isBlank (c : Char) : Bool := c = ' ' || c = '\t' || c = '\n' || c = '\r'

def skipBlanks (s : List Char) : List Char := s.dropWhile isBlank

def isDigit (c : Char) : Bool := 48 ≤ c.toNat && c.toNat ≤ 57

def digitsValue (ds : List Char) : Nat := ds.foldl (fun n c ↦ n * 10 + (c.toNat - 48)) 0

def hexValue (c : Char) : Option Nat :=
  let n := c.toNat
  if 48 ≤ n ∧ n ≤ 57 then some (n - 48)
  else if 97 ≤ n ∧ n ≤ 102 then some (n - 87)
  else if 65 ≤ n ∧ n ≤ 70 then some (n - 55)
  else none

def unit (a b c d : Char) : Option Nat :=
  match hexValue a, hexValue b, hexValue c, hexValue d with
  | some a, some b, some c, some d => some (((a * 16 + b) * 16 + c) * 16 + d)
  | _, _, _, _ => none

def escapeValue (c : Char) : Option Char :=
  match c with
  | '"' => some '"'
  | '\\' => some '\\'
  | '/' => some '/'
  | 'b' => some '\x08'
  | 'f' => some '\x0c'
  | 'n' => some '\n'
  | 'r' => some '\r'
  | 't' => some '\t'
  | _ => none

/-- A piece of a text as written: a character, or the 16-bit unit of an escape by number. -/
inductive Piece
  | char (c : Char)
  | unit (n : Nat)
  deriving DecidableEq

/-- Read the pieces of a text after its opening quotation mark, and what stands after the text. -/
def readPieces : List Char → Option (List Piece × List Char)
  | [] => none
  | c :: rest =>
    if c = '"' then some ([], rest)
    else if c = '\\' then
      match rest with
      | [] => none
      | 'u' :: a :: b :: c :: d :: rest =>
        match unit a b c d, readPieces rest with
        | some n, some (pieces, rest) => some (.unit n :: pieces, rest)
        | _, _ => none
      | e :: rest =>
        match escapeValue e, readPieces rest with
        | some c, some (pieces, rest) => some (.char c :: pieces, rest)
        | _, _ => none
    else if c.toNat < 0x20 then none
    else
      match readPieces rest with
      | some (pieces, rest) => some (.char c :: pieces, rest)
      | none => none

theorem readPieces_quote (rest : List Char) : readPieces ('"' :: rest) = some ([], rest) := by
  unfold readPieces
  simp

/-- The characters that pieces stand for: units of a surrogate pair make one character, half a pair
makes none. -/
def joinPieces : List Piece → Option (List Char)
  | [] => some []
  | .char c :: rest => (joinPieces rest).map (c :: ·)
  | .unit n :: rest =>
    if 0xd800 ≤ n ∧ n < 0xdc00 then
      match rest with
      | .unit low :: rest =>
        if 0xdc00 ≤ low ∧ low < 0xe000 then
          (joinPieces rest).map (Char.ofNat (0x10000 + (n - 0xd800) * 0x400 + (low - 0xdc00)) :: ·)
        else none
      | _ => none
    else if 0xdc00 ≤ n ∧ n < 0xe000 then none
    else (joinPieces rest).map (Char.ofNat n :: ·)

/-- Read a text after its opening quotation mark. The text is `none` if it holds half a surrogate
pair. -/
def readText (s : List Char) : Option (Option (List Char) × List Char) :=
  (readPieces s).map fun (pieces, rest) ↦ (joinPieces pieces, rest)

/-- Whole numbers of 64 bits stay whole, but `-0` is the double, and larger ones become doubles. -/
def Number.ofWhole? (negative : Bool) (n : Nat) : Option Number :=
  if negative then
    if h : 0 < n ∧ n ≤ 0x8000_0000_0000_0000 then some (.whole (-(n : Int)) ⟨by omega, by omega⟩)
    else (Double.ofDecimal? true n 0).map .double
  else
    if h : n < UInt64.size then some (.whole (n : Int) ⟨by omega, by omega⟩)
    else (Double.ofDecimal? false n 0).map .double

def readExponent (s : List Char) : Option (Option Int × List Char) :=
  match s with
  | e :: rest =>
    if e = 'e' ∨ e = 'E' then
      let (negative, rest) := match rest with
        | '-' :: rest => (true, rest)
        | '+' :: rest => (false, rest)
        | rest => (false, rest)
      match rest.takeWhile isDigit with
      | [] => none
      | ds =>
        let n : Int := digitsValue ds
        some (some (if negative then -n else n), rest.dropWhile isDigit)
    else some (none, s)
  | [] => some (none, [])

theorem readExponent_cons_of_ne {c : Char} (hc : ¬ (c = 'e' ∨ c = 'E')) (rest : List Char) :
    readExponent (c :: rest) = some (none, c :: rest) := by
  simp [readExponent, hc]

def readFraction (s : List Char) : Option (Option (List Char) × List Char) :=
  match s with
  | '.' :: rest =>
    match rest.takeWhile isDigit with
    | [] => none
    | ds => some (some ds, rest.dropWhile isDigit)
  | s => some (none, s)

/-- Read a number after its sign: no digit may follow a leading zero. -/
def readNumber (negative : Bool) (s : List Char) : Option (Json × List Char) :=
  let leave (n : Option Number) (rest : List Char) : Option (Json × List Char) :=
    some ((n.map .number).getD .unreadable, rest)
  match s.takeWhile isDigit with
  | [] => none
  | '0' :: _ :: _ => none
  | whole =>
    match readFraction (s.dropWhile isDigit) with
    | none => none
    | some (fraction, rest) =>
      match readExponent rest with
      | none => none
      | some (exponent, rest) =>
        match fraction, exponent with
        | none, none => leave (Number.ofWhole? negative (digitsValue whole)) rest
        | fraction, exponent =>
          let fraction := fraction.getD []
          let power := exponent.getD 0 - fraction.length
          leave ((Double.ofDecimal? negative (digitsValue (whole ++ fraction)) power).map .double)
            rest

def readWord (word : List Char) (j : Json) (s : List Char) : Option (Json × List Char) :=
  if word.isPrefixOf s then some (j, s.drop word.length) else none

mutual

/-- Read a value in which `room` more levels of nesting are allowed. -/
def readValue : (fuel room : Nat) → List Char → Option (Json × List Char)
  | 0, _, _ => none
  | fuel + 1, room, s =>
    match skipBlanks s with
    | [] => none
    | c :: rest =>
      match c with
      | 'n' => readWord ['u', 'l', 'l'] .null rest
      | 't' => readWord ['r', 'u', 'e'] (.bool true) rest
      | 'f' => readWord ['a', 'l', 's', 'e'] (.bool false) rest
      | '-' => readNumber true rest
      | '"' =>
        match readText rest with
        | none => none
        | some (text, rest) =>
          some ((text.map fun cs ↦ .string (String.ofList cs)).getD .unreadable, rest)
      | '[' =>
        match skipBlanks rest with
        | ']' :: rest => some (if room = 0 then .unreadable else .array [], rest)
        | rest =>
          match readItems fuel (room - 1) rest with
          | none => none
          | some (items, rest) => some (if room = 0 then .unreadable else .array items, rest)
      | '\x7b' =>
        match skipBlanks rest with
        | '\x7d' :: rest => some (if room = 0 then .unreadable else .object [], rest)
        | rest =>
          match readMembers fuel (room - 1) rest with
          | none => none
          | some (none, rest) => some (.unreadable, rest)
          | some (some members, rest) =>
            some (if room = 0 then .unreadable else .object members, rest)
      | c => readNumber false (c :: rest)

/-- Read one or more values up to the closing bracket. -/
def readItems : (fuel room : Nat) → List Char → Option (List Json × List Char)
  | 0, _, _ => none
  | fuel + 1, room, s =>
    match readValue fuel room s with
    | none => none
    | some (j, rest) =>
      match skipBlanks rest with
      | ']' :: rest => some ([j], rest)
      | ',' :: rest => (readItems fuel room rest).map fun (items, rest) ↦ (j :: items, rest)
      | _ => none

/-- Read one or more members up to the closing brace. There are none if some name cannot be read. -/
def readMembers : (fuel room : Nat) → List Char → Option (Option (List (String × Json)) × List Char)
  | 0, _, _ => none
  | fuel + 1, room, s =>
    match skipBlanks s with
    | '"' :: rest =>
      match readText rest with
      | none => none
      | some (name, rest) =>
        match skipBlanks rest with
        | ':' :: rest =>
          match readValue fuel room rest with
          | none => none
          | some (j, rest) =>
            let join (members : Option (List (String × Json))) :=
              match name, members with
              | some name, some members => some ((String.ofList name, j) :: members)
              | _, _ => none
            match skipBlanks rest with
            | '\x7d' :: rest => some (join (some []), rest)
            | ',' :: rest =>
              (readMembers fuel room rest).map fun (members, rest) ↦ (join members, rest)
            | _ => none
        | _ => none
    | _ => none

end

theorem readValue_null (fuel room : Nat) (rest : List Char) :
    readValue (fuel + 1) room (['n', 'u', 'l', 'l'] ++ rest) = some (.null, rest) := by
  simp [readValue, skipBlanks, isBlank, readWord]

/-- An item that is followed by the closing bracket is the last. -/
theorem readItems_last {fuel room : Nat} {s rest : List Char} {j : Json}
    (h : readValue fuel room s = some (j, ']' :: rest)) :
    readItems (fuel + 1) room s = some ([j], rest) := by
  simp [readItems, h, skipBlanks, isBlank]

/-- Read a whole text, with at most `room` levels of nesting in what is kept. -/
def read? (room : Nat) (text : String) : Option Json :=
  let s := text.toList
  match readValue (2 * s.length + 2) room s with
  | some (j, rest) => if (skipBlanks rest).isEmpty then some j else none
  | none => none

/-- The nesting that texts from outside may have. -/
def depthLimit : Nat := 127

end UniqueJobs.Json
