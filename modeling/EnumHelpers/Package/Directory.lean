import EnumHelpers.File.Tree
import EnumHelpers.Package.Load
import EnumHelpers.Platform.Constraint

/-!
# Packages — in a directory

The package in a directory: the source files that are no tests and that the target selects, by
their names and by their build constraints.  What else the directory holds is not looked at.
-/

namespace EnumHelpers.Package
open File

/-- Whether an entry of a directory is a source file that the target selects by its name. -/
def isSelected (target : Target) (entry : String × Node) : Bool :=
  entry.2 != .directory && Target.endsWith ".go" entry.1 && !Target.endsWith "_test.go" entry.1 &&
    target.matchesFileName entry.1

/-- The names of the source files among the entries of a directory, in order. -/
def unitNames (target : Target) (entries : List (String × Node)) : List String :=
  Settings.sortTexts ((entries.filter (isSelected target)).map Prod.fst)

/-- The file of a directory as a source of the package; none when its constraint rules it out. -/
def sourceIn (tree : Tree) (target : Target) (directory : Path) (name : String) :
    Except Failure (Option (String × List Text.Glyph)) :=
  let path := directory.join ⟨"", [name]⟩
  match tree.read path with
  | .error trouble => .error (.resolution (.unreadable path.text (trouble.message path)))
  | .ok content => do
    let selected ← target.matchesSource name (Text.replacedText content)
    .ok (if selected then some (name, content) else none)

/-- The sources of the package in a directory. -/
def sourcesIn (tree : Tree) (target : Target) (directory : Path) : Except Failure Sources :=
  match tree.find directory with
  | .ok (steps, .directory) => do
    let found ← (unitNames target (tree.entries steps)).mapM (sourceIn tree target directory)
    let sources := found.filterMap id
    if sources.isEmpty then .error (.resolution (.noSources directory.text)) else .ok sources
  | _ => .error (.resolution (.notADirectory directory.text))

/-- The symbol table of the package in a directory. -/
def loadDirectory (tree : Tree) (target : Target) (directory : Path) :
    Except Failure SymbolTable := do
  let sources ← sourcesIn tree target directory
  load sources

end EnumHelpers.Package
