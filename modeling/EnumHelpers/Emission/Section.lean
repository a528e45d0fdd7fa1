import EnumHelpers.Emission.StringLiteral
import EnumHelpers.Enum.Element
import EnumHelpers.Settings.Basic

/-!
# Emission — the section of a type

The lines of the generated file that belong to one type: its three tables and then the methods of
each group.  A table entry names the constant that owns it, so that the file holds no number.
Blocks of lines follow one another with an empty line between them.
-/

namespace EnumHelpers.Emission

/-- Lines as text, each with its line feed. -/
def textOfLines (lines : List String) : String :=
  String.join (lines.map (· ++ "\n"))

/-- The entry of a value: the constant that owns it, and its string form. -/
def valueEntry (s : EnumSet) (entry : Int × String) : String :=
  "\t" ++ (OrderedMap.get? entry.1 s.valueOwner).getD "" ++ ": " ++ stringLiteral entry.2 ++ ","

/-- The entry of a string form: the form, and the constant that owns it. -/
def stringEntry (s : EnumSet) (entry : String × Int) : String :=
  "\t" ++ stringLiteral entry.1 ++ ": " ++ (OrderedMap.get? entry.1 s.stringOwner).getD "" ++ ","

/-- The entry of an element in the sequence of values. -/
def elementEntry (e : Element) : String := "\t" ++ e.name ++ ","

/-- The three tables of a type. -/
def tableLines (s : EnumSet) : List String :=
  let t := s.typeName
  ["var _" ++ t ++ "Map = map[" ++ t ++ "]string\x7b"] ++
  s.valueToString.map (valueEntry s) ++
  ["\x7d", "", "var _" ++ t ++ "Values = []" ++ t ++ "\x7b"] ++
  s.elements.map elementEntry ++
  ["\x7d", "", "var _" ++ t ++ "NameToValueMap = map[string]" ++ t ++ "\x7b"] ++
  s.stringToValue.map (stringEntry s) ++
  ["\x7d"]

/-- Showing a value, listing the values, reading one and testing one. -/
def baseLines (t : String) : List String := [
  "// String returns the string representation of the " ++ t ++ " value",
  "func (i " ++ t ++ ") String() string \x7b",
  "\tif str, ok := _" ++ t ++ "Map[i]; ok \x7b",
  "\t\treturn str",
  "\t\x7d",
  "\treturn fmt.Sprintf(\"" ++ t ++ "(%d)\", i)",
  "\x7d",
  "",
  "// " ++ t ++ "Values returns all values of the enum",
  "func " ++ t ++ "Values() []" ++ t ++ " \x7b",
  "\treturn _" ++ t ++ "Values",
  "\x7d",
  "",
  "// " ++ t ++ "String retrieves an enum value from the string representation",
  "func " ++ t ++ "String(s string) (" ++ t ++ ", error) \x7b",
  "\tif val, ok := _" ++ t ++ "NameToValueMap[s]; ok \x7b",
  "\t\treturn val, nil",
  "\t\x7d",
  "\treturn 0, fmt.Errorf(\"%s is not a valid " ++ t ++ "\", s)",
  "\x7d",
  "",
  "// Valid returns true if the value is a valid " ++ t,
  "func (i " ++ t ++ ") Valid() bool \x7b",
  "\t_, ok := _" ++ t ++ "Map[i]",
  "\treturn ok",
  "\x7d"]

/-- Testing, setting, clearing and toggling flags. -/
def bitmaskLines (t : String) : List String := [
  "// Has returns true if the flag is set in the " ++ t ++ " value",
  "func (i " ++ t ++ ") Has(flag " ++ t ++ ") bool \x7b",
  "\treturn i&flag != 0",
  "\x7d",
  "",
  "// HasAny returns true if any of the provided flags are set in the " ++ t ++ " value",
  "func (i " ++ t ++ ") HasAny(flags ..." ++ t ++ ") bool \x7b",
  "\tfor _, flag := range flags \x7b",
  "\t\tif i&flag != 0 \x7b",
  "\t\t\treturn true",
  "\t\t\x7d",
  "\t\x7d",
  "\treturn false",
  "\x7d",
  "",
  "// HasAll returns true if all of the provided flags are set in the " ++ t ++ " value",
  "func (i " ++ t ++ ") HasAll(flags ..." ++ t ++ ") bool \x7b",
  "\tfor _, flag := range flags \x7b",
  "\t\tif i&flag == 0 \x7b",
  "\t\t\treturn false",
  "\t\t\x7d",
  "\t\x7d",
  "\treturn true",
  "\x7d",
  "",
  "// Set returns a new " ++ t ++ " with the specified flags set",
  "func (i " ++ t ++ ") Set(flags ..." ++ t ++ ") " ++ t ++ " \x7b",
  "\tresult := i",
  "\tfor _, flag := range flags \x7b",
  "\t\tresult |= flag",
  "\t\x7d",
  "\treturn result",
  "\x7d",
  "",
  "// Clear returns a new " ++ t ++ " with the specified flags cleared",
  "func (i " ++ t ++ ") Clear(flags ..." ++ t ++ ") " ++ t ++ " \x7b",
  "\tresult := i",
  "\tfor _, flag := range flags \x7b",
  "\t\tresult &^= flag",
  "\t\x7d",
  "\treturn result",
  "\x7d",
  "",
  "// Toggle returns a new " ++ t ++ " with the specified flags toggled",
  "func (i " ++ t ++ ") Toggle(flags ..." ++ t ++ ") " ++ t ++ " \x7b",
  "\tresult := i",
  "\tfor _, flag := range flags \x7b",
  "\t\tresult ^= flag",
  "\t\x7d",
  "\treturn result",
  "\x7d"]

/-- Writing a value to JSON and reading it from there. -/
def jsonLines (t : String) : List String := [
  "// MarshalJSON implements the json.Marshaler interface for " ++ t,
  "func (i " ++ t ++ ") MarshalJSON() ([]byte, error) \x7b",
  "\treturn json.Marshal(i.String())",
  "\x7d",
  "",
  "// UnmarshalJSON implements the json.Unmarshaler interface for " ++ t,
  "func (i *" ++ t ++ ") UnmarshalJSON(data []byte) error \x7b",
  "\tvar s string",
  "\tif err := json.Unmarshal(data, &s); err != nil \x7b",
  "\t\treturn fmt.Errorf(\"" ++ t ++ " should be a string, got %s\", data)",
  "\t\x7d",
  "",
  "\tvar err error",
  "\t*i, err = " ++ t ++ "String(s)",
  "\treturn err",
  "\x7d"]

/-- Writing a value to YAML and reading it from there. -/
def yamlLines (t : String) : List String := [
  "// MarshalYAML implements the yaml.Marshaler interface for " ++ t,
  "func (i " ++ t ++ ") MarshalYAML() (any, error) \x7b",
  "\treturn i.String(), nil",
  "\x7d",
  "",
  "// UnmarshalYAML implements the yaml.Unmarshaler interface for " ++ t,
  "func (i *" ++ t ++ ") UnmarshalYAML(node *yaml.Node) error \x7b",
  "\tvar s string",
  "\tif err := node.Decode(&s); err != nil \x7b",
  "\t\treturn fmt.Errorf(\"" ++ t ++ " should be a string, got %v\", node.Value)",
  "\t\x7d",
  "",
  "\tvar err error",
  "\t*i, err = " ++ t ++ "String(s)",
  "\treturn err",
  "\x7d"]

/-- Storing a value in a database and reading it from there. -/
def sqlLines (t : String) : List String := [
  "// Scan implements the sql.Scanner interface for " ++ t,
  "func (i *" ++ t ++ ") Scan(value any) error \x7b",
  "\tif value == nil \x7b",
  "\t\treturn nil",
  "\t\x7d",
  "",
  "\tvar s string",
  "\tswitch v := value.(type) \x7b",
  "\tcase string:",
  "\t\ts = v",
  "\tcase []byte:",
  "\t\ts = string(v)",
  "\tdefault:",
  "\t\treturn fmt.Errorf(\"cannot scan type %T into " ++ t ++ "\", value)",
  "\t\x7d",
  "",
  "\tvar err error",
  "\t*i, err = " ++ t ++ "String(s)",
  "\treturn err",
  "\x7d",
  "",
  "// Value implements the driver.Valuer interface for " ++ t,
  "func (i " ++ t ++ ") Value() (driver.Value, error) \x7b",
  "\treturn i.String(), nil",
  "\x7d"]

/-- The methods of a group. -/
def groupLines (t : String) : MethodGroup → List String
  | .base => baseLines t
  | .bitmask => bitmaskLines t
  | .json => jsonLines t
  | .yaml => yamlLines t
  | .sql => sqlLines t

/-- The blocks of a type: its tables, and the methods of each group. -/
def sectionBlocks (groups : List MethodGroup) (s : EnumSet) : List (List String) :=
  tableLines s :: groups.map (groupLines s.typeName)

/-- Blocks of lines with an empty line between them. -/
def textOfBlocks (blocks : List (List String)) : String :=
  String.intercalate "\n" (blocks.map textOfLines)

/-- The section of a type. -/
def sectionText (groups : List MethodGroup) (s : EnumSet) : String :=
  textOfBlocks (sectionBlocks groups s)

end EnumHelpers.Emission
