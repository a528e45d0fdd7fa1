import EnumHelpers.Json.Basic
import EnumHelpers.Number.Integer

/-!
# JSON — values in messages

The form in which a message shows a value: texts in quotes, the constants capitalised, lists in
brackets and objects in braces.  An integer too long to be written has no such form.
-/

namespace EnumHelpers.Json
open Number

mutual

/-- The form of a value in a message. -/
def shown : Json → Except Fault String
  | .null => .ok "None"
  | .bool b => .ok (if b then "True" else "False")
  | .int n => integerText n
  | .float x => .ok x.text
  | .str s => .ok (Text.quoted s)
  | .arr items => do
    let parts ← shownItems items
    .ok ("[" ++ String.intercalate ", " parts ++ "]")
  | .obj fields => do
    let parts ← shownFields fields
    .ok ("\x7b" ++ String.intercalate ", " parts ++ "\x7d")

/-- The forms of the items of a list. -/
def shownItems : List Json → Except Fault (List String)
  | [] => .ok []
  | v :: rest => do
    let s ← shown v
    let more ← shownItems rest
    .ok (s :: more)

/-- The forms of the fields of an object. -/
def shownFields : List (String × Json) → Except Fault (List String)
  | [] => .ok []
  | (k, v) :: rest => do
    let s ← shown v
    let more ← shownFields rest
    .ok ((Text.quoted k ++ ": " ++ s) :: more)

end

/-- A value as running text: a text stands without quotes. -/
def plain : Json → Except Fault String
  | .str s => .ok s
  | v => v.shown

end EnumHelpers.Json
