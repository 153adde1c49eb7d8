import UniqueJobs.Digest.Block
import UniqueJobs.Text.Lossy
import UniqueJobs.Text.Numeral

/-!
Texts inside a URL, where a percent sign and two digits of base sixteen stand for one byte.
-/

namespace UniqueJobs.Url

def isHexDigit (c : Char) : Bool := ((Text.digitValue c).filter (· < 16)).isSome

/-- The bytes of a text. A percent sign without two digits stands for itself. -/
def percentDecode : List Char → List UInt8
  | [] => []
  | '%' :: a :: b :: rest =>
    match (Text.digitValue a).filter (· < 16), (Text.digitValue b).filter (· < 16) with
    | some a, some b => (a * 16 + b).toUInt8 :: percentDecode rest
    | _, _ => 37 :: percentDecode (a :: b :: rest)
  | c :: rest => Digest.utf8 (String.singleton c) ++ percentDecode rest

/-- The text whose bytes are written, if they are UTF-8. -/
def decode? (s : List Char) : Option String := String.fromUTF8? (percentDecode s).toByteArray

/-- A name or value in a query, where a plus sign stands for a blank and any bytes will do. -/
def decodeField (s : List Char) : String :=
  Text.ofBytes (percentDecode (s.map fun c ↦ if c = '+' then ' ' else c))

end UniqueJobs.Url
