import EnumHelpers.Text.Blank
import EnumHelpers.Text.Lines

/-!
# Emission — layout

The layout of the generated file: no line ends in blanks, at most one empty line stands between
two others, none stands at the ends, and the text ends in one line feed.
-/

namespace EnumHelpers.Emission
open Text

/-- The lines with every run of empty ones cut to one; `afterEmpty` says that the line before is
empty. -/
def squeeze (afterEmpty : Bool) : List (List Char) → List (List Char)
  | [] => []
  | line :: rest =>
    if line.isEmpty then
      if afterEmpty then squeeze true rest else line :: squeeze true rest
    else line :: squeeze false rest

/-- The lines without the empty ones at both ends. -/
def dropOuterEmpty (lines : List (List Char)) : List (List Char) :=
  ((lines.dropWhile List.isEmpty).reverse.dropWhile List.isEmpty).reverse

/-- The lines of a text in the layout. -/
def tidyLines (cs : List Char) : List (List Char) :=
  dropOuterEmpty (squeeze false ((splitAtChar '\n' cs).map trimEndChars))

/-- Lines with a line feed between them, and one at the end. -/
def joinLines (lines : List (List Char)) : List Char :=
  List.intercalate ['\n'] lines ++ ['\n']

/-- A text in the layout. -/
def tidy (text : String) : String :=
  String.ofList (joinLines (tidyLines text.toList))

end EnumHelpers.Emission
