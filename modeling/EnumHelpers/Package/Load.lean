import EnumHelpers.Package.Evaluation
import EnumHelpers.Settings.Basic

/-!
# Packages — from sources to a symbol table

The symbol table of a package whose files are given by name.  The files are read in the order of
their names; all must be free of syntax errors and belong to one package.
-/

namespace EnumHelpers.Package
open Source

/-- The files of a package by their names. -/
abbrev Sources := OrderedMap String (List Text.Glyph)

/-- Whether the first entry stands before the second or has its name. -/
def entryLE (a b : String × List Text.Glyph) : Bool := Settings.textLE a.1 b.1

/-- The files in the order of their names. -/
def sorted (sources : Sources) : Sources := sources.mergeSort entryLE

/-- What one of the files says, with the name of its package. -/
def parseUnit (unit : String) (content : List Text.Glyph) :
    Except Failure (String × SourceFile) :=
  match SourceFile.parse content with
  | none => .error (.resolution (.badSyntax unit))
  | some file =>
    match file.package with
    | none => .error (.resolution (.noPackageClause unit))
    | some package => .ok (package, file)

/-- What the files say, each with its name and that of its package. -/
def parseAll (sources : Sources) : Except Failure (List (String × String × SourceFile)) :=
  (sorted sources).mapM fun (unit, content) => do
    let (package, file) ← parseUnit unit content
    .ok (unit, package, file)

/-- The one package that names agree on. -/
def onePackage (names : List String) : Except Failure String :=
  match names.eraseDups with
  | [name] => .ok name
  | names => .error (.resolution (.packageCount (Settings.sortTexts names)))

/-- A text that may be missing, in a table. -/
def optionalText : Option String → Json
  | some s => .str s
  | none => .null

/-- The entry of a type in a table. -/
def handleOf (entry : String × Option String) : TypeHandle :=
  ⟨.str entry.1, optionalText entry.2⟩

/-- The entry of a constant in a table. -/
def recordOf (entry : ConstantDecl × Recorded × Option String) : ConstantRecord :=
  let (decl, value, type) := entry
  { name := .str decl.name, type := optionalText type, value, unit := .str decl.unit,
    order := .int decl.order, comment := optionalText decl.comment }

/-- The symbol table of a package whose files are given with their names. -/
def tableOf (package : String) (files : List (String × SourceFile)) :
    Except Failure SymbolTable := do
  let types ← Types.ofFiles (files.map Prod.snd)
  let decls ← constantsOf files
  let records ← recordAll types decls {} decls
  .ok ⟨.str package, types.aliases.map handleOf, records.map recordOf⟩

/-- The symbol table of a package. -/
def load (sources : Sources) : Except Failure SymbolTable := do
  let files ← parseAll sources
  let package ← onePackage (files.map fun (_, package, _) => package)
  tableOf package (files.map fun (unit, _, file) => (unit, file))

end EnumHelpers.Package
