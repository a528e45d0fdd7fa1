/-!
# Text — lines

The two ways of cutting a text: at every occurrence of one character, which keeps empty pieces at
the ends, and at every kind of line break, after the last of which no empty line is kept.
-/

namespace EnumHelpers.Text

/-- The pieces between the occurrences of a character: one more than there are occurrences. -/
def splitAtChar (sep : Char) : List Char → List (List Char)
  | [] => [[]]
  | c :: rest =>
    match splitAtChar sep rest with
    | [] => [[c]]
    | piece :: pieces => if c = sep then [] :: piece :: pieces else (c :: piece) :: pieces

/-- A character that breaks a line.  A carriage return with a line feed after it is one break. -/
def isLineBreak (c : Char) : Bool :=
  let n := c.toNat
  (0x0A ≤ n && n ≤ 0x0D) || (0x1C ≤ n && n ≤ 0x1E) || n == 0x85 || n == 0x2028 || n == 0x2029

/-- The lines of a text whose current line, read backwards, is `line`. -/
def linesAfter (line : List Char) : List Char → List (List Char)
  | [] => if line.isEmpty then [] else [line.reverse]
  | '\r' :: '\n' :: rest => line.reverse :: linesAfter [] rest
  | c :: rest => if isLineBreak c then line.reverse :: linesAfter [] rest
    else linesAfter (c :: line) rest

/-- The lines of a text, without their breaks; a break at the very end opens no line. -/
def lines (s : String) : List String :=
  (linesAfter [] s.toList).map String.ofList

end EnumHelpers.Text
