import EnumHelpers.Text.Blank

/-!
# Enumerations — display strings

The string form of a constant: its declared name with a leading prefix removed once, or the text
of its line comment, when comments are used and the comment has text.
-/

namespace EnumHelpers.Enum
open Text

/-- A name without a leading prefix. -/
def dropPrefix (leading name : String) : String :=
  if leading.toList.isPrefixOf name.toList then
    String.ofList (name.toList.drop leading.toList.length)
  else name

/-- The string form of a constant. -/
def display (name leading : String) (comment : Option String) (useComment : Bool) : String :=
  match comment with
  | some text =>
    if useComment && trim text != "" then trim text else dropPrefix leading name
  | none => dropPrefix leading name

/-- The text of a comment without its markers and outer blanks. -/
def commentText (comment : String) : String :=
  let body := trim comment
  let cs := body.toList
  if "//".toList.isPrefixOf cs then trim (String.ofList (cs.drop 2))
  else if "/*".toList.isPrefixOf cs && "*/".toList.isSuffixOf cs then
    trim (String.ofList ((cs.take (cs.length - 2)).drop 2))
  else body

end EnumHelpers.Enum
