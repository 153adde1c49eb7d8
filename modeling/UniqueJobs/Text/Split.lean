/-!
Texts cut in two at a character.
-/

namespace UniqueJobs.Text

/-- The parts of a text around the first character of a kind, which is left out. -/
def splitFirst (p : Char → Bool) (s : List Char) : List Char × Option (List Char) :=
  match s.dropWhile (!p ·) with
  | [] => (s, none)
  | _ :: after => (s.takeWhile (!p ·), some after)

/-- The parts of a text around the last of a character, which is left out. -/
def splitLast (c : Char) (s : List Char) : Option (List Char) × List Char :=
  match splitFirst (· = c) s.reverse with
  | (after, some before) => (some before.reverse, after.reverse)
  | (_, none) => (none, s)

end UniqueJobs.Text
