import EnumHelpers.Text.Character
import EnumHelpers.Text.Quoted

/-!
# Command line — options

The options of the command and how arguments give them.  An option that takes a value has it after
an equals sign or in the next argument, which must not look like an option.  An option with one
dash may be cut short to a text that only one option begins with; one with two dashes may not.
The last of repeated options counts.  Two of the options exclude each other.
-/

namespace EnumHelpers.Cli

/-- An option of the command. -/
inductive Flag where
  | help | typeNames | output | trimPrefix | lineComment | sql | json | yaml | bitmask
  | directory | symbols | config | stdout | noFormat | verbose | version
  deriving DecidableEq, Repr

namespace Flag

/-- All options, in the order in which they are looked up. -/
def all : List Flag := [
  .help, .typeNames, .output, .trimPrefix, .lineComment, .sql, .json, .yaml, .bitmask,
  .directory, .symbols, .config, .stdout, .noFormat, .verbose, .version]

/-- The spellings of an option. -/
def spellings : Flag → List String
  | .help => ["-h", "--help"]
  | .typeNames => ["-type"]
  | .output => ["-output"]
  | .trimPrefix => ["-trimprefix"]
  | .lineComment => ["-linecomment"]
  | .sql => ["-sql"]
  | .json => ["-json"]
  | .yaml => ["-yaml"]
  | .bitmask => ["-bitmask"]
  | .directory => ["--dir"]
  | .symbols => ["--symbols"]
  | .config => ["--config"]
  | .stdout => ["--stdout"]
  | .noFormat => ["--no-format"]
  | .verbose => ["--verbose"]
  | .version => ["--version"]

/-- Whether an option takes a value. -/
def takesValue : Flag → Bool
  | .typeNames | .output | .trimPrefix | .directory | .symbols | .config => true
  | _ => false

/-- The option that an option excludes. -/
def excludes : Flag → Option Flag
  | .directory => some .symbols
  | .symbols => some .directory
  | _ => none

/-- An option in a message. -/
def shown (f : Flag) : String := String.intercalate "/" f.spellings

/-- The option with a spelling. -/
def ofSpelling? (s : String) : Option Flag := all.find? (·.spellings.contains s)

/-- The spellings that begin with a text, with their options. -/
def completions (s : String) : List (Flag × String) :=
  all.flatMap fun f => (f.spellings.filter fun t => s.toList.isPrefixOf t.toList).map fun t => (f, t)

end Flag

/-- What arguments ask for. -/
structure Options where
  typeNames : Option String := none
  output : Option String := none
  trimPrefix : Option String := none
  lineComment : Bool := false
  sql : Bool := false
  json : Bool := false
  yaml : Bool := false
  bitmask : Bool := false
  directory : Option String := none
  symbols : Option String := none
  config : Option String := none
  stdout : Bool := false
  noFormat : Bool := false
  verbose : Bool := false
  deriving DecidableEq, Repr

/-- Why arguments cannot be read. -/
inductive UsageFault where
  | ambiguous (argument : String) (spellings : List String)
  | needsValue (f : Flag)
  | unwantedValue (f : Flag) (value : String)
  | excluded (f other : Flag)
  | unrecognized (arguments : List String)
  deriving DecidableEq, Repr

/-- The wording of a usage fault. -/
def UsageFault.message : UsageFault → String
  | .ambiguous argument spellings =>
    "ambiguous option: " ++ argument ++ " could match " ++ String.intercalate ", " spellings
  | .needsValue f => "argument " ++ f.shown ++ ": expected one argument"
  | .unwantedValue f value =>
    "argument " ++ f.shown ++ ": ignored explicit argument " ++ Text.quoted value
  | .excluded f other => "argument " ++ f.shown ++ ": not allowed with argument " ++ other.shown
  | .unrecognized arguments => "unrecognized arguments: " ++ String.intercalate " " arguments

/-- What a command line asks for. -/
inductive Request where
  | run (o : Options)
  | help
  | version
  deriving DecidableEq, Repr

/-! ### Arguments one by one -/

/-- What an argument is by itself. -/
inductive Argument where
  | plain (text : String)
  /-- The mark after which no argument is an option. -/
  | separator
  | option (f : Flag)
  /-- An option with a value after an equals sign. -/
  | optionWith (f : Flag) (value : String)
  /-- The short option for help with more letters after it. -/
  | helpWith (letters : List Char)
  /-- What looks like an option but is none. -/
  | unknown (text : String)
  deriving DecidableEq, Repr

/-- Whether a text is a negative number. -/
def isNegativeNumber (text : String) : Bool :=
  match text.toList with
  | '-' :: cs =>
    let cs := if cs.getLast? = some '\n' then cs.dropLast else cs
    let (whole, rest) := cs.span Text.isDecimal
    match rest with
    | [] => !whole.isEmpty
    | '.' :: digits => !digits.isEmpty && digits.all Text.isDecimal
    | _ => false
  | _ => false

/-- The parts of a text before and after its first equals sign. -/
def atEquals? (text : String) : Option (String × String) :=
  match text.toList.span (· ≠ '=') with
  | (before, _ :: after) => some (String.ofList before, String.ofList after)
  | (_, []) => none

/-- The readings of an argument that is no spelling of an option. -/
def readings (text : String) : List (Argument × String) :=
  match text.toList with
  | '-' :: '-' :: _ => []
  | '-' :: 'h' :: letters => [(.helpWith letters, "-h")]
  | _ => (Flag.completions text).map fun (f, spelling) => (.option f, spelling)

/-- An argument that is no spelling of an option, with or without a value. -/
def otherArgument (text : String) : Except UsageFault Argument :=
  match readings text with
  | [(argument, _)] => .ok argument
  | [] =>
    if isNegativeNumber text || text.toList.contains ' ' then .ok (.plain text)
    else .ok (.unknown text)
  | several => .error (.ambiguous text (several.map Prod.snd))

/-- What an argument is by itself. -/
def readArgument (text : String) : Except UsageFault Argument :=
  if text.toList.head? ≠ some '-' then .ok (.plain text)
  else
    match Flag.ofSpelling? text with
    | some f => .ok (.option f)
    | none =>
      if text = "-" then .ok (.plain text)
      else
        match atEquals? text with
        | some (spelling, value) =>
          match Flag.ofSpelling? spelling with
          | some f => .ok (.optionWith f value)
          | none => otherArgument text
        | none => otherArgument text

/-- What arguments are, up to the mark after which none is an option. -/
def readArguments : List String → Except UsageFault (List Argument)
  | [] => .ok []
  | text :: rest =>
    if text = "--" then .ok (.separator :: rest.map .plain)
    else do
      let a ← readArgument text
      let more ← readArguments rest
      .ok (a :: more)

/-! ### Arguments together -/

/-- What the arguments so far have given. -/
structure Reading where
  options : Options := {}
  /-- The options that have been given. -/
  given : List Flag := []
  /-- The arguments that no option takes. -/
  extras : List String := []

/-- The options with one more. -/
def Options.set (o : Options) (value : String) : Flag → Options
  | .typeNames => { o with typeNames := some value }
  | .output => { o with output := some value }
  | .trimPrefix => { o with trimPrefix := some value }
  | .lineComment => { o with lineComment := true }
  | .sql => { o with sql := true }
  | .json => { o with json := true }
  | .yaml => { o with yaml := true }
  | .bitmask => { o with bitmask := true }
  | .directory => { o with directory := some value }
  | .symbols => { o with symbols := some value }
  | .config => { o with config := some value }
  | .stdout => { o with stdout := true }
  | .noFormat => { o with noFormat := true }
  | .verbose => { o with verbose := true }
  | .help | .version => o

/-- A reading with one more option given. -/
def Reading.give (r : Reading) (f : Flag) (value : String) : Except UsageFault Reading :=
  match f.excludes with
  | some other =>
    if r.given.contains other then .error (.excluded f other)
    else .ok { r with options := r.options.set value f, given := f :: r.given }
  | none => .ok { r with options := r.options.set value f, given := f :: r.given }

/-- Whether letters after the short option for help are in order: each may only be that option
again, up to one that is no option. -/
def checkHelpLetters : List Char → Except UsageFault Unit
  | [] => .ok ()
  | c :: rest =>
    if c = '-' then .error (.unwantedValue .help (String.ofList (c :: rest)))
    else if c = 'h' then
      match rest with
      | '=' :: value => .error (.unwantedValue .help (String.ofList value))
      | _ => checkHelpLetters rest
    else .ok ()

/-- What the arguments ask for, after a reading of those before them. -/
def settle (r : Reading) : List Argument → Except UsageFault Request
  | [] => if r.extras.isEmpty then .ok (.run r.options) else .error (.unrecognized r.extras)
  | .plain text :: rest => settle { r with extras := r.extras ++ [text] } rest
  | .separator :: rest => settle { r with extras := r.extras ++ ["--"] } rest
  | .unknown text :: rest => settle { r with extras := r.extras ++ [text] } rest
  | .helpWith letters :: _ => do
    checkHelpLetters letters
    .ok .help
  | .optionWith f value :: rest =>
    if f.takesValue then
      match r.give f value with
      | .ok r => settle r rest
      | .error fault => .error fault
    else .error (.unwantedValue f value)
  | .option .help :: _ => .ok .help
  | .option .version :: _ => .ok .version
  | .option f :: rest =>
    if f.takesValue then
      match rest with
      | .plain value :: rest =>
        match r.give f value with
        | .ok r => settle r rest
        | .error fault => .error fault
      | _ => .error (.needsValue f)
    else
      match r.give f "" with
      | .ok r => settle r rest
      | .error fault => .error fault

/-- What a command line asks for. -/
def readRequest (arguments : List String) : Except UsageFault Request := do
  let read ← readArguments arguments
  settle {} read

end EnumHelpers.Cli
