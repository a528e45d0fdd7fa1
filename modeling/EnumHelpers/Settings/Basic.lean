import EnumHelpers.Text.Lower
import EnumHelpers.Text.Quoted
import EnumHelpers.Text.Blank
import EnumHelpers.Emission.Naming

/-!
# Settings — of a run

The settings of one run, with what follows from them: the order of the type names, the name of
the output file when none is given, the command line that stands in the generated file, the groups
of methods to generate and the warnings.
-/

namespace EnumHelpers

/-- A group of generated methods. -/
inductive MethodGroup where
  | base | bitmask | json | yaml | sql
  deriving DecidableEq, Repr

/-- The name of a group. -/
def MethodGroup.name : MethodGroup → String
  | .base => "base"
  | .bitmask => "bitmask"
  | .json => "json"
  | .yaml => "yaml"
  | .sql => "sql"

/-- The group with a name. -/
def MethodGroup.ofName? (s : String) : Option MethodGroup :=
  [MethodGroup.base, .bitmask, .json, .yaml, .sql].find? fun g => g.name = s

/-- The settings of a run. -/
structure Settings where
  typeNames : List String := []
  output : Option String := none
  directory : String := "."
  formatOutput : Bool := true
  trimPrefix : String := ""
  lineComment : Bool := false
  bitmask : Bool := false
  json : Bool := false
  yaml : Bool := false
  sql : Bool := false
  deriving DecidableEq, Repr

namespace Settings

/-- Whether the first text stands before the second or equals it, by code points. -/
def textLE (a b : String) : Bool := !(b < a)

/-- Texts in code point order. -/
def sortTexts (texts : List String) : List String := texts.mergeSort textLE

/-- The type names in the order in which they are generated. -/
def sortedTypeNames (s : Settings) : List String := sortTexts s.typeNames

/-- The output that is given; an empty one counts as none. -/
def givenOutput (s : Settings) : Option String :=
  match s.output with
  | some name => if name = "" then none else some name
  | none => none

/-- The name of the output file: the one given, else one that is made from a single type name,
else one of two fixed names. -/
def outputName (s : Settings) : String :=
  match s.givenOutput with
  | some name => name
  | none =>
    match s.typeNames with
    | [name] => Text.lower name ++ "_enumer.go"
    | _ => if s.bitmask then "flags_gen.go" else "enums_gen.go"

/-- The command that asks for the run. -/
def command (s : Settings) : String :=
  String.intercalate " " <|
    ["enumer", "-type=" ++ String.intercalate "," s.sortedTypeNames] ++
    (if s.trimPrefix = "" then [] else ["-trimprefix=" ++ s.trimPrefix]) ++
    (if s.lineComment then ["-linecomment"] else []) ++
    (if s.json then ["-json"] else []) ++
    (if s.yaml then ["-yaml"] else []) ++
    (if s.sql then ["-sql"] else []) ++
    (match s.givenOutput with
      | some name => ["-output=" ++ name]
      | none => []) ++
    (if s.bitmask then ["-bitmask"] else [])

/-- The groups of methods to generate, in a fixed order; the base group is always among them. -/
def groups (s : Settings) : List MethodGroup :=
  .base :: (if s.bitmask then [.bitmask] else []) ++ (if s.json then [.json] else []) ++
    (if s.yaml then [.yaml] else []) ++ (if s.sql then [.sql] else [])

/-- A letter of the first 128 characters, or the low line. -/
def isPlainLetter (c : Char) : Bool :=
  c == '_' || ('a' ≤ c && c ≤ 'z') || ('A' ≤ c && c ≤ 'Z')

/-- Whether a text is a word of plain letters and digits. -/
def isPlainWord (text : String) : Bool :=
  Emission.isWordOf isPlainLetter (fun c => isPlainLetter c || ('0' ≤ c && c ≤ '9')) text.toList

/-- What is doubtful about the settings. -/
inductive Warning where
  | noTypeNames
  | badTypeName (name : String)
  | uselessTrimPrefix (text : String)
  | outputSuffix (name : String)
  deriving DecidableEq, Repr

/-- The wording of a warning. -/
def Warning.message : Warning → String
  | .noTypeNames => "No type names configured"
  | .badTypeName name => "Invalid Go type name: " ++ name
  | .uselessTrimPrefix text => "Trim prefix " ++ Text.quoted text ++ " can never match a Go name"
  | .outputSuffix name => "Output file " ++ name ++ " does not end in .go"

/-- The warnings about the settings. -/
def warnings (s : Settings) : List Warning :=
  (if s.typeNames.isEmpty then [.noTypeNames] else []) ++
  (s.typeNames.filter fun name => !isPlainWord name).map .badTypeName ++
  (if s.trimPrefix ≠ "" ∧ ¬ isPlainWord s.trimPrefix then [.uselessTrimPrefix s.trimPrefix]
    else []) ++
  (match s.givenOutput with
    | some name => if ".go".toList.isSuffixOf name.toList then [] else [.outputSuffix name]
    | none => [])

end Settings
end EnumHelpers
