/-! Paths of files, in one spelling each: no empty or `.` components. A `..` stays where it is,
for what it leads to is decided by the files. -/
namespace JsonWriter

/-- A path: the slashes before it (none, one or two) and its components. -/
structure Path where
  slashes : Nat
  names : List String
deriving DecidableEq

namespace Path

/-- The parts of a text between its slashes; a text without slashes is one part. -/
def splitSlashes : List Char → List (List Char)
  | [] => [[]]
  | c :: rest =>
    if c == '/' then [] :: splitSlashes rest
    else match splitSlashes rest with
      | [] => [[c]]
      | part :: parts => (c :: part) :: parts

/-- Exactly two slashes before a path are kept, any other number is one slash. -/
def leadingSlashes (s : List Char) : Nat :=
  match (s.takeWhile (· == '/')).length with
  | 0 => 0
  | 2 => 2
  | _ => 1

def ofString (s : String) : Path where
  slashes := leadingSlashes s.toList
  names := ((splitSlashes s.toList).filter fun part => part ≠ [] ∧ part ≠ ['.']).map String.ofList

/-- The path of no components is written as a point. -/
def text (p : Path) : String :=
  if p.slashes = 0 && p.names.isEmpty then "."
  else String.ofList (List.replicate p.slashes '/') ++ String.intercalate "/" p.names

def hasNul (p : Path) : Bool := p.names.any (·.toList.contains '\x00')

end Path
end JsonWriter
