/-!
The paths of URLs, in which a segment of one dot is idle and one of two dots takes back the segment
before it.
-/

namespace UniqueJobs.Url

/-- The number of dots that a segment consists of, each written as such or by its number. -/
def dots? : List Char → Option Nat
  | [] => some 0
  | '.' :: rest => (dots? rest).map (· + 1)
  | '%' :: '2' :: 'e' :: rest | '%' :: '2' :: 'E' :: rest => (dots? rest).map (· + 1)
  | _ => none

/-- Is the segment a drive, a letter with a colon or a bar after it? -/
def isDrive (segment : List Char) : Bool :=
  match segment with
  | c :: mark :: rest =>
    c.isAlpha && (mark = ':' || mark = '|') && (rest.isEmpty || rest.head? = some '\\')
  | _ => false

/-- Take back the last of the segments so far, which are in reverse. A drive stays. -/
def retreat : List (List Char) → List (List Char)
  | [] => []
  | segment :: before => if isDrive segment then segment :: before else before

/-- Follow segments from those so far, which are in reverse. Where dots come last, the path ends in a
slash. -/
def followDots (before : List (List Char)) : List (List Char) → List (List Char)
  | [] => before.reverse
  | segment :: rest =>
    let last := if rest.isEmpty then [[]] else []
    match dots? segment with
    | some 1 => followDots before rest ++ last
    | some 2 => followDots (retreat before) rest ++ last
    | _ => followDots (segment :: before) rest

/-- A path that begins with a slash, without segments of dots. -/
def resolveDots (path : List Char) : List Char :=
  match path with
  | '/' :: rest => (followDots [] (rest.splitOn '/')).flatMap ('/' :: ·)
  | path => path

example : resolveDots "/a/./b/../c".toList = "/a/c".toList := by decide +kernel

example : resolveDots "/../C:/%2E./x/.".toList = "/C:/x/".toList := by decide +kernel

end UniqueJobs.Url
