import EnumHelpers.Emission.Job
import EnumHelpers.Emission.Layout
import EnumHelpers.Enum.Resolution

/-!
# Emission — reports

One run over a symbol table: every type that is asked for is resolved, the job is checked and the
file is generated.  A failure of generation is reported with the failure itself and no code; any
other failure stops the run.
-/

namespace EnumHelpers

/-- The language of the generated file. -/
def Emission.language : String := "go"

/-- The suffix of the names of generated files. -/
def Emission.fileExtension : String := ".go"

/-- What is said of a generated file. -/
structure Summary where
  language : String
  fileExtension : String
  package : String
  typeCount : Nat
  elementCount : Nat
  groups : List MethodGroup
  command : String

/-- The outcome of a run. -/
inductive Report where
  | generated (code : String) (warnings : List Job.Warning) (summary : Summary)
  | failed (cause : Failure)

namespace Report

/-- The text in which a failed run says why. -/
def failureText (cause : Failure) : String := "Code generation failed: " ++ cause.message

/-- What is asked of a type by the settings. -/
def requestFor (s : Settings) (name : String) : Enum.Request :=
  ⟨name, s.trimPrefix, s.lineComment⟩

/-- The members of every type that is named, in order, each type once. -/
def resolveAll (t : SymbolTable) (s : Settings) :
    List String → OrderedMap String (List Enum.Member) →
    Except Failure (OrderedMap String (List Enum.Member))
  | [], found => .ok found
  | name :: rest, found =>
    if OrderedMap.has name found then resolveAll t s rest found
    else do
      let members ← Enum.resolve t (requestFor s name)
      resolveAll t s rest (OrderedMap.put name members found)

/-- The sets of elements of the types whose members are given. -/
def enumSetsOf : OrderedMap String (List Enum.Member) →
    Except Failure (OrderedMap String EnumSet)
  | [] => .ok []
  | (name, members) :: rest => do
    let elements ← Enum.elementsOf members
    let more ← enumSetsOf rest
    .ok ((name, EnumSet.ofElements name elements) :: more)

/-- The text that a package name is. -/
def packageText : Json → Except Failure String
  | .str name => .ok name
  | _ => .error .wrongKind

/-- The job that the settings make of a symbol table. -/
def jobOf (t : SymbolTable) (s : Settings) : Except Failure Job := do
  let members ← resolveAll t s s.sortedTypeNames []
  let package ← packageText t.package
  let enumSets ← enumSetsOf members
  .ok { package, typeNames := s.sortedTypeNames, enumSets, groups := s.groups,
        command := s.command }

/-- The number of elements of all sets. -/
def elementCount : OrderedMap String EnumSet → Nat
  | [] => 0
  | (_, s) :: rest => s.elements.length + elementCount rest

/-- What is said of the file that a job generates. -/
def summaryOf (job : Job) : Summary :=
  ⟨Emission.language, Emission.fileExtension, job.package, job.typeNames.length,
    elementCount job.enumSets, job.groups, job.command⟩

/-- The run of the settings over a symbol table, a failure of generation included. -/
def attempt (t : SymbolTable) (s : Settings) : Except Failure Report := do
  let job ← jobOf t s
  let code ← job.code
  .ok (.generated (Emission.tidy code) job.warnings (summaryOf job))

/-- An outcome with a failure of generation turned into a report. -/
def settle (outcome : Except Failure Report) : Except Failure Report :=
  match outcome with
  | .error cause => if cause.isGeneration then .ok (.failed cause) else .error cause
  | .ok report => .ok report

/-- The report of a run of the settings over a symbol table. -/
def generate (t : SymbolTable) (s : Settings) : Except Failure Report :=
  settle (attempt t s)

end Report
end EnumHelpers
