import EnumHelpers.Cli.Markup
import EnumHelpers.Cli.Options
import EnumHelpers.Emission.Writing
import EnumHelpers.Language
import EnumHelpers.Symbol.Location

/-!
# Command line — runs

One run of the command, as a function of its surroundings.  The settings are read, the symbol
table is loaded, the code is generated, and it is printed or written to one file, in this order;
each stage that fails ends the run with a message.  Failures that have no message of their own
here escape.

* The exit status is 0 when the code was printed, or written and formatted as asked for; 2 when
  the arguments ask for nothing; 1 otherwise.
* No file is written before the code of every type has been generated.
-/

namespace EnumHelpers.Cli

/-- What a run finds around it. -/
structure Surroundings where
  tree : File.Tree
  target : Target
  formatter : Emission.Formatter
  response : Response

/-- How a run ends. -/
inductive Ending where
  | exited (status : Nat)
  | escaped (cause : Failure)

/-- What a run leaves behind. -/
structure Result where
  ending : Ending
  output : String := ""
  /-- The lines of messages. -/
  messages : List String := []
  tree : File.Tree
  /-- The command lines of the formatter that were started. -/
  calls : List (List String) := []

/-- A value that counts only when it is true. -/
def ifSet (b : Bool) : Json := if b then .bool true else .null

/-- A text that counts only when it is given. -/
def ifGiven : Option String → Json
  | some s => .str s
  | none => .null

/-- The settings that the options override. -/
def Options.overrides (o : Options) : OrderedMap String Json := [
  ("type_names", ifGiven o.typeNames),
  ("output", ifGiven o.output),
  ("trim_prefix", ifGiven o.trimPrefix),
  ("line_comment", ifSet o.lineComment),
  ("sql", ifSet o.sql),
  ("json", ifSet o.json),
  ("yaml", ifSet o.yaml),
  ("bitmask", ifSet o.bitmask),
  ("directory", ifGiven o.directory),
  ("format_output", if o.noFormat then .bool false else .null)]

/-- Whether a text is missing or empty. -/
def isMissing (s : Option String) : Bool := s.getD "" == ""

/-- The symbol table that the options ask for. -/
def loadTable (around : Surroundings) (o : Options) (s : Settings) :
    Except Failure SymbolTable :=
  if isMissing o.symbols then do
    let loader ← builtInLanguages.loader Emission.language
    loader around.tree around.target (File.Path.ofString s.directory)
  else SymbolTable.loadFrom around.tree around.response (o.symbols.getD "")

/-- The path of the file that the settings ask for. -/
def outputPath (s : Settings) : File.Path :=
  (File.Path.ofString s.directory).join (File.Path.ofString s.outputName)

/-! ### Messages -/

/-- A message about the settings. -/
def settingsMessage (cause : Failure) : String :=
  "❌ [red]Configuration error:[/red] " ++ cause.message

/-- A message about the loading of the package. -/
def loadingMessage (cause : Failure) : String :=
  "❌ [red]Failed to load package:[/red] " ++ cause.message

/-- A message about another failure. -/
def failureMessage (text : String) : String := "❌ [red]" ++ text ++ "[/red]"

/-- A warning. -/
def warningMessage (text : String) : String := "⚠️  [yellow]" ++ text ++ "[/yellow]"

/-- The message of success. -/
def successMessage (path : File.Path) (s : Summary) : String :=
  "✅ [green]Generated " ++ path.text ++ "[/green] (" ++ toString s.typeCount ++ " type(s), " ++
    toString s.elementCount ++ " constant(s))"

/-! ### Stages -/

/-- A result with a message printed before what is left to do; a message whose marks do not match
ends the run. -/
def say (message : String) (before : List String) (around : Surroundings)
    (next : List String → Result) : Result :=
  match printedLines message with
  | .ok lines => next (before ++ lines)
  | .error cause => { ending := .escaped cause, messages := before, tree := around.tree }

/-- A result with messages printed one after another. -/
def sayAll : List String → List String → Surroundings → (List String → Result) → Result
  | [], before, _, next => next before
  | message :: rest, before, around, next =>
    say message before around fun before => sayAll rest before around next

/-- A run that ends with a status. -/
def stop (status : Nat) (around : Surroundings) (messages : List String) : Result :=
  { ending := .exited status, messages, tree := around.tree }

/-- A run that ends with a failure that escapes. -/
def escape (cause : Failure) (around : Surroundings) (messages : List String) : Result :=
  { ending := .escaped cause, messages, tree := around.tree }

/-- The last stage of a run: the code is written, and formatted if that is asked for. -/
def writeCode (around : Surroundings) (s : Settings) (code : String) (summary : Summary)
    (messages : List String) : Result :=
  let path := outputPath s
  let writing := Emission.write around.tree around.formatter code path s.formatOutput
  let after := { around with tree := writing.tree }
  let result := match writing.outcome with
    | .ok () => say (successMessage path summary) messages after (stop 0 after)
    | .error cause =>
      if cause.isGeneration then say (failureMessage cause.message) messages after (stop 1 after)
      else escape cause after messages
  { result with calls := writing.calls }

/-- The stage after generation: the code is printed or written. -/
def deliver (around : Surroundings) (o : Options) (s : Settings) (report : Report)
    (messages : List String) : Result :=
  match report with
  | .failed cause =>
    say (failureMessage (Report.failureText cause)) messages around (stop 1 around)
  | .generated code warnings summary =>
    sayAll (warnings.map fun w => warningMessage w.message) messages around fun messages =>
      if o.stdout then { stop 0 around messages with output := code }
      else writeCode around s code summary messages

/-- The stages after the settings: the package is loaded and its code generated. -/
def generate (around : Surroundings) (o : Options) (s : Settings) (messages : List String) :
    Result :=
  match loadTable around o s with
  | .error cause =>
    if cause.isGeneration then say (loadingMessage cause) messages around (stop 1 around)
    else escape cause around messages
  | .ok table =>
    match Report.ofTable around.tree table (.given s) Emission.language with
    | .error cause => escape cause around messages
    | .ok report => deliver around o s report messages

/-- Whether a failure is one of settings. -/
def isSettingsFailure : Failure → Bool
  | .settings _ => true
  | _ => false

/-- A run that options ask for. -/
def runOptions (around : Surroundings) (o : Options) : Result :=
  if isMissing o.typeNames && isMissing o.config then stop 2 around []
  else
    match Settings.load around.tree o.overrides o.config with
    | .error cause =>
      if isSettingsFailure cause then say (settingsMessage cause) [] around (stop 1 around)
      else escape cause around []
    | .ok s =>
      if s.typeNames.isEmpty then stop 2 around []
      else
        sayAll (s.warnings.map fun w => warningMessage w.message) [] around
          (generate around o s)

/-- The name and version of the program. -/
def versionText : String := "enumer 0.1.0\n"

/-- The line that says what is wrong with the arguments. -/
def usageLine (fault : UsageFault) : String :=
  let line := fault.message.toList.takeWhile (· ≠ '\n')
  Text.trimEnd ("enumer: error: " ++ String.ofList line)

/-- A run of the command with its arguments. -/
def run (around : Surroundings) (arguments : List String) : Result :=
  match readRequest arguments with
  | .error fault => stop 2 around [usageLine fault]
  | .ok .help => stop 0 around []
  | .ok .version => { stop 0 around [] with output := versionText }
  | .ok (.run o) => runOptions around o

end EnumHelpers.Cli
