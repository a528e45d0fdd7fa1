import EnumHelpers.Json.Shown

/-!
# JSON — writing

Writing a JSON document, either on one line or with two more spaces of indentation at every
level.  Characters beyond the first 128 are written as they are.
-/

namespace EnumHelpers.Json

/-- A character of a JSON text. -/
def writtenChar (c : Char) : List Char :=
  if c = '"' ∨ c = '\\' then ['\\', c]
  else if c = '\n' then ['\\', 'n']
  else if c = '\r' then ['\\', 'r']
  else if c = '\t' then ['\\', 't']
  else if c = '\x08' then ['\\', 'b']
  else if c = '\x0c' then ['\\', 'f']
  else if c.toNat < 0x20 then '\\' :: 'u' :: Text.hexDigits 4 c.toNat
  else [c]

/-- A text as JSON. -/
def writtenText (s : String) : String :=
  String.ofList ('"' :: s.toList.flatMap writtenChar ++ ['"'])

/-- A number as JSON. -/
def writtenFloat (x : Number.Binary64) : String :=
  match x with
  | .notANumber => "NaN"
  | .infinite negative => if negative then "-Infinity" else "Infinity"
  | .finite .. => x.text

/-- The break before an item at a level of indentation; none when there is no indentation. -/
def lineBreak (indent : Option Nat) : String :=
  match indent with
  | some k => String.ofList ('\n' :: List.replicate k ' ')
  | none => ""

mutual

/-- A value as JSON, its items two spaces further in than `indent`. -/
def write (indent : Option Nat) : Json → String
  | .null => "null"
  | .bool b => if b then "true" else "false"
  | .int n => toString n
  | .float x => writtenFloat x
  | .str s => writtenText s
  | .arr [] => "[]"
  | .arr (v :: rest) =>
    let inner := indent.map (· + 2)
    "[" ++ lineBreak inner ++ write inner v ++ writeItems inner rest ++ lineBreak indent ++ "]"
  | .obj [] => "\x7b\x7d"
  | .obj ((k, v) :: rest) =>
    let inner := indent.map (· + 2)
    "\x7b" ++ lineBreak inner ++ writtenText k ++ ": " ++ write inner v ++ writeFields inner rest ++
      lineBreak indent ++ "\x7d"

/-- The items after the first, each after a comma. -/
def writeItems (indent : Option Nat) : List Json → String
  | [] => ""
  | v :: rest => "," ++ lineBreak indent ++ write indent v ++ writeItems indent rest

/-- The fields after the first, each after a comma. -/
def writeFields (indent : Option Nat) : List (String × Json) → String
  | [] => ""
  | (k, v) :: rest =>
    "," ++ lineBreak indent ++ writtenText k ++ ": " ++ write indent v ++ writeFields indent rest

end

/-- A document over several lines. -/
def pretty (v : Json) : String := v.write (some 0)

/-- A document on one line. -/
def compact (v : Json) : String := v.write none

end EnumHelpers.Json
