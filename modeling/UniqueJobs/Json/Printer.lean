import UniqueJobs.Json.Basic
import UniqueJobs.Decimal.Shortest
import UniqueJobs.Text.Numeral

/-!
The text of a document: `Json.compact` without a blank, `Json.pretty` with a line for each item and
member. Both keep the order of members.
-/

namespace UniqueJobs

/-- Doubles are positional from `0.00001` to below `10 ^ 16`. -/
def Number.layout : Double.Layout := ⟨-5, 15, 'e'⟩

def Number.render : Number → List Char
  | .whole n _ => (toString n).toList
  | .double d => d.render Number.layout

namespace Json

open Text (hexDigit)

/-- A character inside a text: only the quotation mark, the backslash and the controls below the
blank are escaped. -/
def escapedChar (c : Char) : List Char :=
  match c with
  | '"' => ['\\', '"']
  | '\\' => ['\\', '\\']
  | '\x08' => ['\\', 'b']
  | '\t' => ['\\', 't']
  | '\n' => ['\\', 'n']
  | '\x0c' => ['\\', 'f']
  | '\r' => ['\\', 'r']
  | c =>
    if c.toNat < 0x20 then ['\\', 'u', '0', '0', hexDigit (c.toNat / 16), hexDigit (c.toNat % 16)]
    else [c]

def quotedText (s : List Char) : List Char := '"' :: (s.flatMap escapedChar ++ ['"'])

mutual

def chars : Json → List Char
  | .null | .unreadable => ['n', 'u', 'l', 'l']
  | .bool true => ['t', 'r', 'u', 'e']
  | .bool false => ['f', 'a', 'l', 's', 'e']
  | .number n => n.render
  | .string s => quotedText s.toList
  | .array items => '[' :: (itemChars items ++ [']'])
  | .object members => '\x7b' :: (memberChars members ++ ['\x7d'])

def itemChars : List Json → List Char
  | [] => []
  | [j] => chars j
  | j :: rest => chars j ++ ',' :: itemChars rest

def memberChars : List (String × Json) → List Char
  | [] => []
  | [(name, j)] => quotedText name.toList ++ ':' :: chars j
  | (name, j) :: rest => quotedText name.toList ++ ':' :: (chars j ++ ',' :: memberChars rest)

end

/-- The text without blanks. -/
def compact (j : Json) : String := String.ofList (chars j)

def newLine (depth : Nat) : List Char := '\n' :: List.replicate (2 * depth) ' '

mutual

def prettyChars (depth : Nat) : Json → List Char
  | .array [] => ['[', ']']
  | .array items => '[' :: (prettyItems (depth + 1) items ++ newLine depth ++ [']'])
  | .object [] => ['\x7b', '\x7d']
  | .object members => '\x7b' :: (prettyMembers (depth + 1) members ++ newLine depth ++ ['\x7d'])
  | j => chars j

def prettyItems (depth : Nat) : List Json → List Char
  | [] => []
  | [j] => newLine depth ++ prettyChars depth j
  | j :: rest => newLine depth ++ prettyChars depth j ++ ',' :: prettyItems depth rest

def prettyMembers (depth : Nat) : List (String × Json) → List Char
  | [] => []
  | [(name, j)] => newLine depth ++ quotedText name.toList ++ ':' :: ' ' :: prettyChars depth j
  | (name, j) :: rest =>
    newLine depth ++ quotedText name.toList ++ ':' :: ' ' ::
      (prettyChars depth j ++ ',' :: prettyMembers depth rest)

end

/-- The text with two blanks of indentation a level; what is empty stays on its line. -/
def pretty (j : Json) : String := String.ofList (prettyChars 0 j)

end Json

end UniqueJobs
