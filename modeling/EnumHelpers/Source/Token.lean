import EnumHelpers.Text.Utf8

/-!
# Source — tokens

The tokens of a source file.  Every token keeps the gap before it, the blanks and comments that
separate it from the token before, so that a row of tokens still spells the text it stands for:
`rawGlyphs`.  Punctuation is one token for each character; an operator of several characters is
a row of tokens without gaps.
-/

namespace EnumHelpers.Source
open Text

/-- A place in a source file: its row, and the number of bytes before it in the row. -/
structure Position where
  row : Nat
  column : Nat
  deriving DecidableEq, Repr

/-- The place after a glyph that begins at the given place. -/
def Position.next (p : Position) (g : Glyph) : Position :=
  if g = .char '\n' then ⟨p.row + 1, 0⟩ else ⟨p.row, p.column + g.width⟩

/-- The place after glyphs that begin at the given place. -/
def Position.after (p : Position) (gs : List Glyph) : Position := gs.foldl Position.next p

/-- What a token is. -/
inductive TokenKind where
  /-- A name or a reserved word. -/
  | word (text : String)
  | int | float | imaginary | rune | string
  /-- A punctuation mark. -/
  | mark (c : Char)
  /-- The end of the file. -/
  | finish
  /-- A byte that is no text. -/
  | stray
  deriving DecidableEq, Repr

/-- A token of a source file. -/
structure Token where
  kind : TokenKind
  glyphs : List Glyph
  /-- The blanks and comments before the token. -/
  gap : List Glyph
  start : Position
  stop : Position
  /-- Whether a line ends in the gap, outside of comments. -/
  lineBefore : Bool
  deriving DecidableEq, Repr

/-- The text that a row of tokens stands for, gaps between them included. -/
def rawGlyphs : List Token → List Glyph
  | [] => []
  | t :: rest => t.glyphs ++ rest.flatMap fun t => t.gap ++ t.glyphs

/-- The text of a row of tokens; none when it holds bytes that are no text. -/
def rawText (ts : List Token) : Option String := textOfGlyphs (rawGlyphs ts)

/-- The words that are no names. -/
def reservedWords : List String := [
  "break", "case", "chan", "const", "continue", "default", "defer", "else", "fallthrough", "for",
  "func", "go", "goto", "if", "import", "interface", "map", "package", "range", "return",
  "select", "struct", "switch", "type", "var"]

/-- A comment, with the place where it begins. -/
structure Comment where
  start : Position
  glyphs : List Glyph
  deriving DecidableEq, Repr

end EnumHelpers.Source
