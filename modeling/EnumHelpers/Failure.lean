import EnumHelpers.Constant.Basic
import EnumHelpers.Json.Shown

/-!
# Failures

Everything that can stop the program, as causes.  Each family has one wording function, and
`Failure.message` gives the text shown to the user.  The failures of generation, which a run
reports instead of stopping, are those for which `Failure.isGeneration` holds.
-/

namespace EnumHelpers

/-- Why the constants of a type could not be found. -/
inductive ResolutionFault where
  | badSyntax (unit : String)
  | noPackageClause (unit : String)
  /-- The units do not agree on one package. -/
  | packageCount (names : List String)
  | notADirectory (path : String)
  | unreadable (path reason : String)
  | noSources (path : String)
  | badConstraint (unit reason : String)
  /-- The document of a symbol table is no object. -/
  | tableNotObject
  | noPackageName
  | badTypeEntry (shown : String)
  | badConstantEntry (shown : String)
  | declaredTwice (constant type : String)
  deriving DecidableEq, Repr

/-- The wording of a resolution fault. -/
def ResolutionFault.message : ResolutionFault → String
  | .badSyntax unit => "Syntax error in " ++ unit
  | .noPackageClause unit => "No package clause in " ++ unit
  | .packageCount names =>
    "Expected exactly one package, got " ++ toString names.length ++ ": " ++
      String.intercalate ", " names
  | .notADirectory path => "Not a directory: " ++ path
  | .unreadable path reason => "Failed to read " ++ path ++ ": " ++ reason
  | .noSources path => "No Go source files in " ++ path
  | .badConstraint unit reason => unit ++ ": invalid //go:build line: " ++ reason
  | .tableNotObject => "symbol table must be a JSON object"
  | .noPackageName => "symbol table has no package name"
  | .badTypeEntry shown => "invalid type entry in symbol table: " ++ shown
  | .badConstantEntry shown => "invalid constant entry in symbol table: " ++ shown
  | .declaredTwice constant type => "constant " ++ constant ++ " declared twice for type " ++ type

/-- Why the document of a symbol table could not be obtained. -/
inductive LoadingFault where
  | fileNotFound (path : String)
  | fileNotJson (path : String)
  | fileUnreadable (path reason : String)
  | badAddress (url : String)
  | timeout (url : String)
  | noConnection (url : String)
  | httpStatus (status url : String)
  | requestFailed (url reason : String)
  | answerNotJson (url reason : String)
  deriving DecidableEq, Repr

/-- The wording of a loading fault.  The reason why a file is not JSON is left to the reader of
the document, and stands here as a place holder. -/
def LoadingFault.message : LoadingFault → String
  | .fileNotFound path => "File not found: " ++ path
  | .fileNotJson path => "Invalid JSON in file " ++ path ++ ": <json detail>"
  | .fileUnreadable path reason => "Error reading file " ++ path ++ ": " ++ reason
  | .badAddress url => "Invalid URL: " ++ url
  | .timeout url => "Request timeout for URL: " ++ url
  | .noConnection url => "Connection error for URL: " ++ url
  | .httpStatus status url => "HTTP error " ++ status ++ " for URL: " ++ url
  | .requestFailed url reason => "Request error for URL " ++ url ++ ": " ++ reason
  | .answerNotJson url reason => "Invalid JSON response from URL " ++ url ++ ": " ++ reason

/-- Why a constant has no exact integer. -/
inductive ValueFault where
  | notAnInteger (constant shown : String)
  | notExact (constant shown : String)
  deriving DecidableEq, Repr

/-- The wording of a value fault. -/
def ValueFault.message : ValueFault → String
  | .notAnInteger constant shown => "constant " ++ constant ++ " has non-integer value " ++ shown
  | .notExact constant shown =>
    "constant " ++ constant ++ " value " ++ shown ++
      " cannot be rendered as an exact integer literal"

/-- What is wrong with a job. -/
inductive JobFault where
  | emptyPackageName
  | packageNotIdentifier (name : String)
  | packageReserved (name : String)
  | noTypeNames
  | badTypeName (name : String)
  | unresolvedType (name : String)
  | badConstantName (name : String)
  deriving DecidableEq, Repr

/-- The wording of a job fault. -/
def JobFault.message : JobFault → String
  | .emptyPackageName => "Package name cannot be empty"
  | .packageNotIdentifier name => "'" ++ name ++ "' is not a valid Go identifier"
  | .packageReserved name => "'" ++ name ++ "' is a Go reserved word"
  | .noTypeNames => "No type names to generate"
  | .badTypeName name => "'" ++ name ++ "' is not a valid Go type name"
  | .unresolvedType name => "Type " ++ name ++ " was not resolved"
  | .badConstantName name => "'" ++ name ++ "' is not a valid Go constant name"

/-- Why the generated file could not be written or formatted. -/
inductive FormattingFault where
  | formatterMissing (path : String)
  | cannotStart (binary reason : String)
  | rejected (path reason : String)
  | cannotWrite (path reason : String)
  deriving DecidableEq, Repr

/-- The wording of a formatting fault. -/
def FormattingFault.message : FormattingFault → String
  | .formatterMissing path => "gofmt not found on PATH; cannot format " ++ path
  | .cannotStart binary reason => "Failed to run " ++ binary ++ ": " ++ reason
  | .rejected path reason => "Failed to format " ++ path ++ ": " ++ reason
  | .cannotWrite path reason => "Failed to write " ++ path ++ ": " ++ reason

/-- What is wrong with the settings of a run. -/
inductive SettingsFault where
  | fileNotFound (path : String)
  | fileNotNamedJson (path : String)
  | fileNotJson (path : String)
  | fileUnreadable (path reason : String)
  | fileNotObject (path : String)
  | unknownKeys (keys : List String)
  | notTruthValue (key shown : String)
  | notText (key shown : String)
  | badTypeNames (shown : String)
  | cannotSave (path reason : String)
  deriving DecidableEq, Repr

/-- The wording of a settings fault. -/
def SettingsFault.message : SettingsFault → String
  | .fileNotFound path => "Configuration file not found: " ++ path
  | .fileNotNamedJson path => "Configuration file must be JSON: " ++ path
  | .fileNotJson path => "Invalid JSON in configuration file " ++ path ++ ": <json detail>"
  | .fileUnreadable path reason => "Failed to load configuration file " ++ path ++ ": " ++ reason
  | .fileNotObject path => "Configuration file must contain a JSON object: " ++ path
  | .unknownKeys keys => "Unknown configuration keys: " ++ String.intercalate ", " keys
  | .notTruthValue key shown => key ++ " must be true or false, got " ++ shown
  | .notText key shown => key ++ " must be a string, got " ++ shown
  | .badTypeNames shown => "type_names must be a string or a list of strings, got " ++ shown
  | .cannotSave path reason => "Failed to save configuration to " ++ path ++ ": " ++ reason

/-- What is wrong with the use of a registry. -/
inductive RegistryFault where
  | notAGenerator
  | aliasConflict (name : String)
  | notRegistered (language : String) (available : List String)
  | badSettings (kind : String)
  /-- A name has led to a language that has no entry. -/
  | noEntry (language : String)
  deriving DecidableEq, Repr

/-- The wording of a registry fault. -/
def RegistryFault.message : RegistryFault → String
  | .notAGenerator => "Generator class must inherit from CodeGenerator"
  | .aliasConflict name => "Alias '" ++ name ++ "' conflicts with existing primary language"
  | .notRegistered language available =>
    "No generator registered for language: " ++ language ++ ". Available: " ++
      String.intercalate ", " available
  | .badSettings kind => "Invalid config type: <class '" ++ kind ++ "'>"
  | .noEntry language => Text.quoted language

/-- What stops the program. -/
inductive Failure where
  | resolution (fault : ResolutionFault)
  | typeNotFound (type package : String)
  | noConstants (type : String)
  | loading (fault : LoadingFault)
  | value (fault : ValueFault)
  | job (faults : List JobFault)
  | formatting (fault : FormattingFault)
  /-- A run that was asked for nothing but the code failed with the given report. -/
  | generation (report : String)
  | settings (fault : SettingsFault)
  | registry (fault : RegistryFault)
  | refused (cause : Constant.Refusal)
  | number (fault : Number.Fault)
  /-- A text is the string form of no member. -/
  | notAMember (text type : String)
  /-- A text has the form of an address but is none. -/
  | badAddress (reason : String)
  /-- The tags of a marked-up message do not match. -/
  | badMarkup (reason : String)
  /-- Bytes that had to be text are none. -/
  | notText
  /-- A file was to be made under a name with a NUL in it. -/
  | nullCharacter
  /-- A value of one kind stands where another kind is needed. -/
  | wrongKind
  /-- A value is asked for an operation that its kind does not have. -/
  | noSuchOperation
  deriving DecidableEq, Repr

namespace Failure

/-- The text shown to the user. -/
def message : Failure → String
  | .resolution fault => fault.message
  | .typeNotFound type package =>
    "type " ++ type ++ " not found" ++ if package = "" then "" else " in package " ++ package
  | .noConstants type => "no constants found for type " ++ type
  | .loading fault => fault.message
  | .value fault => fault.message
  | .job faults => String.intercalate "; " (faults.map JobFault.message)
  | .formatting fault => fault.message
  | .generation report => report
  | .settings fault => fault.message
  | .registry fault => fault.message
  | .refused cause => cause.message
  | .number fault => fault.message
  | .notAMember text type => text ++ " is not a valid " ++ type
  | .badAddress reason | .badMarkup reason => reason
  | .nullCharacter => "embedded null byte"
  | .notText | .wrongKind | .noSuchOperation => ""

/-- Whether a failure is one of generation, which a run reports instead of stopping. -/
def isGeneration : Failure → Bool
  | .resolution _ | .typeNotFound .. | .noConstants _ | .loading _ | .value _ | .job _
  | .formatting _ | .generation _ => true
  | _ => false

/-- The failure that the evaluation of a constant ends in; a cycle is a refusal like any other. -/
def ofConstant : Constant.Failure → Failure
  | .refused cause => .refused cause
  | .fault cause => .number cause
  | .notText => .notText
  | .cycle name => .refused (.notAConstant name)

/-- The form of a value in a message. -/
def shown (v : Json) : Except Failure String := v.shown.mapError .number

/-- A value as running text in a message. -/
def plain (v : Json) : Except Failure String := v.plain.mapError .number

end Failure
end EnumHelpers
