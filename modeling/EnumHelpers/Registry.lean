import EnumHelpers.Settings.Document

/-!
# Registries of languages

A registry knows the languages code is generated for: for each a generator and a loader of its
packages, and further names that stand for it.  Names are compared without regard to case, and
the name of a language goes before an equal further name.

A registration that fails on one of its further names keeps what it has entered before.
-/

namespace EnumHelpers

/-- The languages code is generated for. -/
structure Registry (Generator Loader : Type) where
  generators : OrderedMap String Generator := []
  loaders : OrderedMap String Loader := []
  /-- Further names, each with the language it stands for. -/
  aliases : OrderedMap String String := []
  deriving DecidableEq, Repr

namespace Registry

variable {Generator Loader : Type}

/-- The registry with further names entered for a language, up to the first that is the name of a
language itself, unless `replace` is set. -/
def enterAliases (language : String) (replace : Bool) :
    Registry Generator Loader → List String → Registry Generator Loader × Except Failure Unit
  | r, [] => (r, .ok ())
  | r, name :: rest =>
    let key := Text.lower name
    if key = language then enterAliases language replace r rest
    else if !replace && OrderedMap.has key r.generators then
      (r, .error (.registry (.aliasConflict name)))
    else
      enterAliases language replace { r with aliases := OrderedMap.put key language r.aliases } rest

/-- The registry after a registration, with what it came to.  A generator is missing when what is
offered is none; a language that is there already is kept unless `replace` is set. -/
def register (r : Registry Generator Loader) (language : String) (generator : Option Generator)
    (loader : Loader) (aliases : List String) (replace : Bool) :
    Registry Generator Loader × Except Failure Unit :=
  match generator with
  | none => (r, .error (.registry .notAGenerator))
  | some generator =>
    let key := Text.lower language
    if OrderedMap.has key r.generators && !replace then (r, .ok ())
    else
      enterAliases key replace { r with
        generators := OrderedMap.put key generator r.generators
        loaders := OrderedMap.put key loader r.loaders } aliases

/-- The names of the languages, in order. -/
def languages (r : Registry Generator Loader) : List String :=
  Settings.sortTexts (OrderedMap.keys r.generators)

/-- Whether a name is that of a language or stands for one. -/
def isSupported (r : Registry Generator Loader) (name : String) : Bool :=
  OrderedMap.has (Text.lower name) r.generators || OrderedMap.has (Text.lower name) r.aliases

/-- The failure to find a language. -/
def unknown (r : Registry Generator Loader) (name : String) : Failure :=
  .registry (.notRegistered name r.languages)

/-- The language that a name is or stands for. -/
def resolve (r : Registry Generator Loader) (name : String) : Except Failure String :=
  let key := Text.lower name
  if OrderedMap.has key r.generators then .ok key
  else
    match OrderedMap.get? key r.aliases with
    | some language => .ok language
    | none => .error (r.unknown name)

/-- The generator of a language. -/
def generator (r : Registry Generator Loader) (name : String) : Except Failure Generator := do
  let key ← r.resolve name
  match OrderedMap.get? key r.generators with
  | some g => .ok g
  | none => .error (.registry (.noEntry key))

/-- The loader of a language. -/
def loader (r : Registry Generator Loader) (name : String) : Except Failure Loader := do
  let key ← r.resolve name
  match OrderedMap.get? key r.loaders with
  | some l => .ok l
  | none => .error (.registry (.noEntry key))

end Registry

/-- Where the settings of a generator come from. -/
inductive SettingsSource where
  | defaults
  | overrides (fields : OrderedMap String Json)
  | file (path : String)
  | given (s : Settings)
  /-- A value of a kind that settings cannot come from. -/
  | other (kind : String)

namespace SettingsSource

/-- The source that a value is. -/
def ofJson : Json → SettingsSource
  | .null => .defaults
  | .obj fields => .overrides fields
  | .str path => .file path
  | .bool _ => .other "bool"
  | .int _ => .other "int"
  | .float _ => .other "float"
  | .arr _ => .other "list"

/-- The settings that come from a source. -/
def settings (tree : File.Tree) : SettingsSource → Except Failure Settings
  | .defaults => Settings.load tree [] none
  | .overrides fields => Settings.load tree fields none
  | .file path => Settings.load tree [] (some path)
  | .given s => .ok s
  | .other kind => .error (.registry (.badSettings kind))

end SettingsSource

namespace Registry

variable {Generator Loader : Type}

/-- The generator of a language with its settings. -/
def create (r : Registry Generator Loader) (tree : File.Tree) (name : String)
    (source : SettingsSource) : Except Failure (Generator × Settings) := do
  let g ← r.generator name
  let s ← source.settings tree
  .ok (g, s)

end Registry
end EnumHelpers
