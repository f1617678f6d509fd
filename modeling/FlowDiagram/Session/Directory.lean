import FlowDiagram.Fault

namespace FlowDiagram

/-- The files written so far, each with the number of steps upward to the directory it is in. -/
structure Directory where
  files : List (Nat × List Char) := []

namespace Directory

def parts : List Char → List (List Char)
  | [] => [[]]
  | c :: cs =>
    if c = '/' then [] :: parts cs
    else
      match parts cs with
      | [] => [[c]]
      | p :: ps => (c :: p) :: ps

def steps (cs : List Char) : List (List Char) := (parts cs).filter fun p => p ≠ [] ∧ p ≠ ['.']

/-- How an absolute path begins. Exactly two slashes are kept as two. -/
def rootOf (cs : List Char) : List Char :=
  match cs.takeWhile (· = '/') with
  | [] => []
  | ['/', '/'] => ['/', '/']
  | _ => ['/']

/-- The path without empty parts and single points; nothing is left of a path to the directory
itself but a point. -/
def normalize (path : String) : String :=
  let cs := path.toList
  match rootOf cs ++ ['/'].intercalate (steps cs) with
  | [] => "."
  | cs => String.ofList cs

/-- Follows the parts of a path before its last: upward, or into a name, where nothing can be. -/
def follow (d : Directory) (path : String) : Nat → List (List Char) → Except Fault Nat
  | up, [] => .ok up
  | up, p :: ps =>
    if p = [] ∨ p = ['.'] then d.follow path up ps
    else if p = ['.', '.'] then d.follow path (up + 1) ps
    else if (up, p) ∈ d.files then .error (.notDirectory path)
    else .error (.noSuchFile path)

def splitTail (ps : List (List Char)) : Bool × List (List Char) :=
  (ps.getLast? = some [], (ps.reverse.dropWhile (· = [])).reverse)

/-- Writes a file. A path that ends in a slash or in points means a directory. -/
def write (d : Directory) (path : String) : Except Fault Directory := do
  if path = "" then throw (.noSuchFile path)
  let (slash, ps) := splitTail (parts path.toList)
  let up ← d.follow path 0 ps.dropLast
  match ps.getLast? with
  | none => throw (.isDirectory path)
  | some name =>
    if slash ∨ name = ['.'] ∨ name = ['.', '.'] then throw (.isDirectory path)
    else return ⟨(up, name) :: d.files⟩

example : normalize "./a//b" = "a/b" ∧ normalize "" = "." ∧ normalize "a/../b/" = "a/../b" := by
  decide +kernel

end Directory

end FlowDiagram
