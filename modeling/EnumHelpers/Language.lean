import EnumHelpers.Emission.Report
import EnumHelpers.Package.Directory
import EnumHelpers.Registry

/-!
# Languages

The languages that are built in, and runs that name theirs: over a symbol table, over the package
in a directory, and over a single source text.  A language that is not known and settings that are
at fault stop a run; a package that cannot be loaded is reported like any failure of generation.
-/

namespace EnumHelpers

/-- What makes a report of a symbol table. -/
abbrev Generator := SymbolTable → Settings → Except Failure Report

/-- What loads the package in a directory. -/
abbrev Loader := File.Tree → Target → File.Path → Except Failure SymbolTable

/-- The languages that are built in. -/
def builtInLanguages : Registry Generator Loader :=
  (Registry.register {} Emission.language (some Report.generate) Package.loadDirectory ["golang"]
    false).1

namespace Report

/-- The report of a run over a symbol table. -/
def ofTable (tree : File.Tree) (table : SymbolTable) (source : SettingsSource)
    (language : String) : Except Failure Report := do
  let (generator, settings) ← builtInLanguages.create tree language source
  generator table settings

/-- The report of a run over the package in a directory. -/
def ofDirectory (tree : File.Tree) (target : Target) (directory : File.Path)
    (source : SettingsSource) (language : String) : Except Failure Report := do
  let loader ← builtInLanguages.loader language
  match loader tree target directory with
  | .ok table => ofTable tree table source language
  | .error cause => if cause.isGeneration then .ok (.failed cause) else .error cause

/-- The code generated for types of a single source text. -/
def quickCode (source : List Text.Glyph) (types : Json) (options : OrderedMap String Json) :
    Except Failure String := do
  let table ← Package.load [("source.go", source)]
  let overrides := Settings.merge [("type_names", types)] options
  let report ← ofTable {} table (.overrides overrides) Emission.language
  match report with
  | .generated code _ _ => .ok code
  | .failed cause => .error (.generation (failureText cause))

end Report
end EnumHelpers
