import EnumHelpers.File.Tree
import EnumHelpers.Json.Reader
import EnumHelpers.Json.Writer
import EnumHelpers.Settings.Basic
import EnumHelpers.Text.Lower

/-!
# Settings — documents

Settings as JSON objects.  The fields of a settings file replace the defaults, and those of the
overrides that are not null replace both; only then are the fields checked, so that a faulty field
of the file does no harm once it is overridden.  Saved settings read back as they were.
-/

namespace EnumHelpers.Settings

/-- The settings as an object, in the order of the fields. -/
def toJson (s : Settings) : OrderedMap String Json := [
  ("type_names", .arr (s.typeNames.map .str)),
  ("output", match s.output with | some name => .str name | none => .null),
  ("directory", .str s.directory),
  ("format_output", .bool s.formatOutput),
  ("trim_prefix", .str s.trimPrefix),
  ("line_comment", .bool s.lineComment),
  ("bitmask", .bool s.bitmask),
  ("json", .bool s.json),
  ("yaml", .bool s.yaml),
  ("sql", .bool s.sql)]

/-- The text of a settings file that holds the settings. -/
def saved (s : Settings) : String := Json.pretty (.obj s.toJson)

/-- The fields of `base` replaced by those of `more`. -/
def merge (base more : OrderedMap String Json) : OrderedMap String Json :=
  more.foldl (fun fields (key, value) => OrderedMap.put key value fields) base

/-- The fields of the overrides that count: those that are not null. -/
def effective (overrides : OrderedMap String Json) : OrderedMap String Json :=
  overrides.filter fun (_, value) => match value with
    | .null => false
    | _ => true

/-- The names that a text with commas lists, without blanks around them; empty ones are left
out. -/
def splitNames (text : String) : List String :=
  (((Text.splitAtChar ',' text.toList).map fun cs => String.ofList (Text.trimChars cs))).filter
    (· ≠ "")

/-- The texts of a list; none when one of the items is no text. -/
def texts? : List Json → Option (List String)
  | [] => some []
  | .str s :: rest => (texts? rest).map (s :: ·)
  | _ :: _ => none

/-- The type names that a field lists. -/
def typeNamesOf (v : Json) : Except Failure (List String) :=
  let refuse : Except Failure (List String) := do
    let s ← Failure.shown v
    .error (.settings (.badTypeNames s))
  match v with
  | .str s => .ok (splitNames s)
  | .arr items =>
    match texts? items with
    | some names => .ok ((names.map Text.trim).filter (· ≠ ""))
    | none => refuse
  | _ => refuse

/-- The truth value of a field. -/
def truthField (key : String) (fields : OrderedMap String Json) : Except Failure Bool :=
  match Json.field key fields with
  | .bool b => .ok b
  | v => do
    let s ← Failure.shown v
    .error (.settings (.notTruthValue key s))

/-- The text of a field. -/
def textField (key : String) (fields : OrderedMap String Json) : Except Failure String :=
  match Json.field key fields with
  | .str s => .ok s
  | v => do
    let s ← Failure.shown v
    .error (.settings (.notText key s))

/-- The text of a field that may be null. -/
def optionalTextField (key : String) (fields : OrderedMap String Json) :
    Except Failure (Option String) :=
  match Json.field key fields with
  | .null => .ok none
  | _ => (textField key fields).map some

/-- The fields that settings have. -/
def knownKeys : List String := (toJson {}).map Prod.fst

/-- The keys of an object that no field of the settings has, in order. -/
def unknownKeys (fields : OrderedMap String Json) : List String :=
  sortTexts ((OrderedMap.keys fields).filter fun key => !knownKeys.contains key)

/-- The settings that a complete object holds. -/
def ofFields (fields : OrderedMap String Json) : Except Failure Settings := do
  let unknown := unknownKeys fields
  if !unknown.isEmpty then .error (.settings (.unknownKeys unknown))
  else
    let formatOutput ← truthField "format_output" fields
    let lineComment ← truthField "line_comment" fields
    let bitmask ← truthField "bitmask" fields
    let json ← truthField "json" fields
    let yaml ← truthField "yaml" fields
    let sql ← truthField "sql" fields
    let directory ← textField "directory" fields
    let trimPrefix ← textField "trim_prefix" fields
    let output ← optionalTextField "output" fields
    let typeNames ← typeNamesOf (Json.field "type_names" fields)
    .ok { typeNames, output, directory, formatOutput, trimPrefix, lineComment, bitmask, json,
          yaml, sql }

/-- The fields of the settings file at a path. -/
def readFile (tree : File.Tree) (path : File.Path) :
    Except Failure (OrderedMap String Json) :=
  if !tree.exists? path then .error (.settings (.fileNotFound path.text))
  else if Text.lower path.suffix ≠ ".json" then .error (.settings (.fileNotNamedJson path.text))
  else
    match tree.read path with
    | .error trouble => .error (.settings (.fileUnreadable path.text (trouble.message path)))
    | .ok content =>
      match Text.textOfGlyphs content with
      | none => .error .notText
      | some text =>
        match Json.read text with
        | .error .malformed => .error (.settings (.fileNotJson path.text))
        | .error (.integer cause) => .error (.number cause)
        | .ok (.obj fields) => .ok fields
        | .ok _ => .error (.settings (.fileNotObject path.text))

/-- The fields of the settings file, when one is named. -/
def fileFields (tree : File.Tree) (file : Option String) :
    Except Failure (OrderedMap String Json) :=
  match file with
  | some name => if name = "" then .ok [] else readFile tree (File.Path.ofString name)
  | none => .ok []

/-- The settings that come of a settings file and overrides. -/
def load (tree : File.Tree) (overrides : OrderedMap String Json) (file : Option String) :
    Except Failure Settings := do
  let fields ← fileFields tree file
  ofFields (merge (merge (toJson {}) fields) (effective overrides))

/-- The tree with the settings saved to the file at a path. -/
def save (tree : File.Tree) (s : Settings) (path : File.Path) : Except Failure File.Tree :=
  match tree.write path s.saved with
  | .ok tree => .ok tree
  | .error .nullCharacter => .error .nullCharacter
  | .error trouble => .error (.settings (.cannotSave path.text (trouble.message path)))

end EnumHelpers.Settings
