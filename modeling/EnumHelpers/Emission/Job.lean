import EnumHelpers.Emission.Naming
import EnumHelpers.Emission.Section

/-!
# Emission — jobs

A job is everything the generated file is made of.  A job with a name that may not stand in the
file, without types or with a type that was not resolved is refused, with all its faults at once.
What is only doubtful gives warnings.
-/

namespace EnumHelpers

/-- What one generated file is made of. -/
structure Job where
  package : String
  typeNames : List String
  enumSets : OrderedMap String EnumSet
  groups : List MethodGroup
  command : String

namespace Job

/-- What is doubtful about a job. -/
inductive Warning where
  | repeatedType (name : String)
  | shadowed (type constant display : String)
  | negativeValues (type : String)
  deriving DecidableEq, Repr

/-- The wording of a warning. -/
def Warning.message : Warning → String
  | .repeatedType name =>
    "Type " ++ name ++ " requested more than once - definitions will be duplicated"
  | .shadowed type constant display =>
    type ++ "." ++ constant ++ " does not round-trip: " ++ Text.quoted display ++
      " is claimed by a later declaration"
  | .negativeValues type =>
    "Type " ++ type ++ " has negative values - bitmask helpers may misbehave"

/-- The names that stand in a list after an equal one or one in `seen`. -/
def repeatedAfter (seen : List String) : List String → List String
  | [] => []
  | name :: rest =>
    if seen.contains name then name :: repeatedAfter seen rest
    else repeatedAfter (name :: seen) rest

/-- The warnings about the elements of a set that are shadowed. -/
def shadowWarnings (entry : String × EnumSet) : List Warning :=
  entry.2.shadowed.map fun e => .shadowed entry.1 e.name e.display

/-- The warnings about a job. -/
def warnings (job : Job) : List Warning :=
  (repeatedAfter [] job.typeNames).map .repeatedType ++
  job.enumSets.flatMap shadowWarnings ++
  (if job.groups.contains .bitmask then
    (job.enumSets.filter fun entry => entry.2.elements.any fun e => e.value < 0).map
      fun entry => .negativeValues entry.1
  else [])

/-- What is wrong with a type name of a job. -/
def typeFaults (job : Job) (name : String) : List JobFault :=
  (if Emission.isIdentifier name then [] else [.badTypeName name]) ++
    (if OrderedMap.has name job.enumSets then [] else [.unresolvedType name])

/-- What is wrong with the names of the constants of a set. -/
def constantFaults (entry : String × EnumSet) : List JobFault :=
  (entry.2.elements.filter fun e => !Emission.isIdentifier e.name).map fun e =>
    .badConstantName e.name

/-- What is wrong with a job. -/
def faults (job : Job) : List JobFault :=
  Emission.packageFaults job.package ++
  (if job.typeNames.isEmpty then [.noTypeNames] else []) ++
  job.typeNames.flatMap job.typeFaults ++
  job.enumSets.flatMap constantFaults

/-- The packages that the generated file imports. -/
def imports (groups : List MethodGroup) : List String :=
  (if groups.contains .sql then ["database/sql/driver"] else []) ++ ["fmt"] ++
    (if groups.contains .json then ["encoding/json"] else []) ++
    (if groups.contains .yaml then ["gopkg.in/yaml.v3"] else [])

/-- The lines above the first section. -/
def headerLines (job : Job) : List String :=
  ["// Code generated by enumer; DO NOT EDIT.", "// Command: " ++ job.command, "",
    "package " ++ job.package, "", "import ("] ++
  (imports job.groups).map (fun path => "\t\"" ++ path ++ "\"") ++ [")"]

/-- The sections of the types that were resolved, in the order of their names. -/
def sections (job : Job) : List String :=
  (job.typeNames.filterMap fun name => OrderedMap.get? name job.enumSets).map
    (Emission.sectionText job.groups)

/-- The generated file, before it is tidied. -/
def code (job : Job) : Except Failure String :=
  if job.faults.isEmpty then
    .ok (String.intercalate "\n" (Emission.textOfLines job.headerLines :: job.sections))
  else .error (.job job.faults)

end Job
end EnumHelpers
