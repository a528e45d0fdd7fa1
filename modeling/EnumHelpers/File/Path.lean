import EnumHelpers.Text.Lines

/-!
# Files — paths

A path as its root and its steps.  Empty steps and steps to the same directory are dropped when a
path is read; steps to the parent are kept.
-/

namespace EnumHelpers.File

/-- A path: its root, empty for a path from the working directory, and its steps. -/
structure Path where
  root : String
  steps : List String
  deriving DecidableEq, Repr

namespace Path

/-- The root of a path: exactly two slashes in front are a root of their own. -/
def rootOf : List Char → String
  | '/' :: '/' :: '/' :: _ => "/"
  | '/' :: '/' :: _ => "//"
  | '/' :: _ => "/"
  | _ => ""

/-- The path that a text names. -/
def ofString (s : String) : Path :=
  ⟨rootOf s.toList,
    ((Text.splitAtChar '/' s.toList).map String.ofList).filter fun x => x ≠ "" && x ≠ "."⟩

/-- The text of a path. -/
def text (p : Path) : String :=
  if p.root = "" ∧ p.steps.isEmpty then "." else p.root ++ String.intercalate "/" p.steps

/-- Whether a path has a NUL in it. -/
def hasNull (p : Path) : Bool := p.steps.any fun step => step.toList.contains '\x00'

/-- The path `q` taken from the directory `p`. -/
def join (p q : Path) : Path :=
  if q.root ≠ "" then q else ⟨p.root, p.steps ++ q.steps⟩

/-- The last step of a path; none for the working directory or a root. -/
def name (p : Path) : String := p.steps.getLast?.getD ""

/-- The part of a name from its last point on, when characters stand on both sides of it. -/
def suffixOf (name : List Char) : List Char :=
  let tail := name.reverse.takeWhile (· ≠ '.')
  let k := tail.length + 1
  if tail.isEmpty ∨ name.length ≤ k then [] else name.drop (name.length - k)

/-- The suffix of a path, with its point. -/
def suffix (p : Path) : String := String.ofList (suffixOf p.name.toList)

end Path
end EnumHelpers.File
