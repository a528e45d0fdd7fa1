import EnumHelpers.Failure
import EnumHelpers.File.Tree
import EnumHelpers.Text.Blank

/-!
# Emission — writing the generated file

The generated file is written and then formatted in place by an outside formatter, which is given
with its outcome.  The formatter is started only after the file is written, at most once; the
written file stays when formatting fails.  A path with a NUL can be that of no file, which is a
failure of another kind.
-/

namespace EnumHelpers.Emission
open File

/-- What comes of starting the formatter. -/
inductive Start where
  /-- It cannot be started. -/
  | broken (reason : String)
  /-- It ends with a status and error output. -/
  | exits (status : Int) (output : String)
  deriving DecidableEq, Repr

/-- The formatter that a run finds. -/
inductive Formatter where
  /-- It is not installed. -/
  | missing
  /-- It stands at a path. -/
  | installed (binary : String) (start : Start)
  deriving DecidableEq, Repr

/-- What the writing of a file came to. -/
structure Writing where
  tree : Tree
  /-- The command lines that were started. -/
  calls : List (List String)
  outcome : Except Failure Unit

/-- The command line that formats the file at a path. -/
def formatCall (binary : String) (path : Path) : List String := [binary, "-w", path.text]

/-- What comes of formatting the file at a path by a formatter that is installed. -/
def formatted (binary : String) (path : Path) : Start → Except Failure Unit
  | .broken reason => .error (.formatting (.cannotStart binary reason))
  | .exits status output =>
    if status = 0 then .ok ()
    else
      let said := Text.trim output
      let reason := if said = "" then "exit status " ++ toString status else said
      .error (.formatting (.rejected path.text reason))

/-- What formatting the file at a path comes to. -/
def format (formatter : Formatter) (path : Path) : List (List String) × Except Failure Unit :=
  match formatter with
  | .missing => ([], .error (.formatting (.formatterMissing path.text)))
  | .installed binary start => ([formatCall binary path], formatted binary path start)

/-- The failure that a trouble with the writing of a file ends in. -/
def writingFailure (path : Path) : Trouble → Failure
  | .nullCharacter => .nullCharacter
  | trouble => .formatting (.cannotWrite path.text (trouble.message path))

/-- What writing code to a path, and formatting it if that is asked for, comes to. -/
def write (tree : Tree) (formatter : Formatter) (code : String) (path : Path)
    (formatInPlace : Bool) : Writing :=
  match tree.write path code with
  | .error trouble => ⟨tree, [], .error (writingFailure path trouble)⟩
  | .ok tree =>
    if formatInPlace then
      let (calls, outcome) := format formatter path
      ⟨tree, calls, outcome⟩
    else ⟨tree, [], .ok ()⟩

end EnumHelpers.Emission
