/-!
# Paths

A path is a root, which is empty for a relative path, and parts. Empty parts and single dots are
left out when a path is read; double dots are kept, because what they mean depends on the files.
-/

namespace SleighForge

/-- A path of a file or directory. -/
structure Path where
  /-- Nothing, one slash or two. -/
  root : String
  parts : List String
  deriving DecidableEq, Repr

/-- The parts of a text between slashes. -/
def slashParts : List Char → List (List Char)
  | [] => [[]]
  | c :: cs =>
    match slashParts cs with
    | [] => [[c]]
    | part :: parts => if c = '/' then [] :: part :: parts else (c :: part) :: parts

namespace Path

/-- The root of a path text. Three slashes and more are as good as one. -/
def rootOf (cs : List Char) : String :=
  match (cs.takeWhile (· == '/')).length with
  | 0 => ""
  | 2 => "//"
  | _ => "/"

/-- The path of a text. -/
def ofText (s : String) : Path where
  root := rootOf s.toList
  parts := ((slashParts s.toList).map String.ofList).filter fun part => part ≠ "" ∧ part ≠ "."

/-- The path as text; an empty path is the working directory. -/
def toText (p : Path) : String :=
  if p.root = "" ∧ p.parts = [] then "." else p.root ++ "/".intercalate p.parts

/-- A path that starts from another, unless it has a root of its own. -/
def join (p q : Path) : Path :=
  if q.root = "" then ⟨p.root, p.parts ++ q.parts⟩ else q

end Path

end SleighForge
