import EnumHelpers.Source.Literal
import EnumHelpers.Text.Blank
import EnumHelpers.Text.Character

/-!
# Source — from text to tokens

A source file as a row of tokens that ends in the end of the file, and its comments.  A mark of
byte order may stand at the very front.  Every text has tokens: a literal or comment that is not
closed is taken for the punctuation it begins with.
-/

namespace EnumHelpers.Source
open Text

/-- The blanks between tokens. -/
def isSpace (c : Char) : Bool :=
  isBlank c && !(0x1C ≤ c.toNat && c.toNat ≤ 0x1F)

/-- The length of a comment up to the end of its line. -/
def lineCommentBody : List Glyph → Nat
  | [] => 0
  | g :: rest => if g = .char '\n' ∨ g = .char '\x00' then 0 else 1 + lineCommentBody rest

/-- The length of a comment up to its closing mark. -/
def blockCommentBody : List Glyph → Option Nat
  | [] => none
  | g :: rest =>
    if g = .char '*' ∧ rest.head? = some (.char '/') then some 2
    else if g = .char '\x00' then none
    else (blockCommentBody rest).map (1 + ·)

/-- A comment. -/
def commentScan : Scan
  | .char '/' :: .char '/' :: rest => some (2 + lineCommentBody rest)
  | .char '/' :: .char '*' :: rest => (blockCommentBody rest).map (2 + ·)
  | _ => none

/-- The characters that go on a word. -/
def wordMore : List Glyph → List Char
  | .char c :: rest => if continuesName c then c :: wordMore rest else []
  | _ => []

/-- A piece of a source file. -/
inductive Piece where
  | blank (endsLine : Bool)
  | comment
  | token (kind : TokenKind)
  deriving DecidableEq, Repr

/-- The piece that begins with a character, with the number of its glyphs. -/
def pieceAt (c : Char) (rest : List Glyph) : Piece × Nat :=
  let gs := .char c :: rest
  if isSpace c then (.blank (c == '\n'), 1)
  else if startsName c then
    let more := wordMore rest
    (.token (.word (String.ofList (c :: more))), 1 + more.length)
  else
    match commentScan gs, number? gs, stringScan gs, runeScan gs with
    | some n, _, _, _ => (.comment, n)
    | none, some (kind, n), _, _ => (.token kind, n)
    | none, none, some n, _ => (.token .string, n)
    | none, none, none, some n => (.token .rune, n)
    | none, none, none, none => (.token (.mark c), 1)

/-- The piece at the front of a text, with the number of its glyphs. -/
def piece? : List Glyph → Option (Piece × Nat)
  | [] => none
  | .char c :: rest => some (pieceAt c rest)
  | .stray _ :: _ => some (.token .stray, 1)

/-- The tokens and comments from a place on; `gap` holds the gap before, read backwards, and
`line` says whether a line ends in it. -/
def scanFrom : Nat → Position → List Glyph → Bool → List Glyph → List Token × List Comment
  | 0, place, gap, line, _ => ([⟨.finish, [], gap.reverse, place, place, line⟩], [])
  | fuel + 1, place, gap, line, gs =>
    match piece? gs with
    | none => ([⟨.finish, [], gap.reverse, place, place, line⟩], [])
    | some (piece, n) =>
      let text := gs.take n
      let rest := gs.drop n
      let stop := place.after text
      match piece with
      | .blank endsLine => scanFrom fuel stop (text.reverse ++ gap) (line || endsLine) rest
      | .comment =>
        let (ts, cs) := scanFrom fuel stop (text.reverse ++ gap) line rest
        (ts, ⟨place, text⟩ :: cs)
      | .token kind =>
        let (ts, cs) := scanFrom fuel stop [] false rest
        (⟨kind, text, gap.reverse, place, stop, line⟩ :: ts, cs)

/-- The tokens and comments of a source file. -/
def scan (gs : List Glyph) : List Token × List Comment :=
  match gs with
  | .char '\uFEFF' :: rest =>
    scanFrom rest.length ((Position.mk 0 0).next (.char '\uFEFF')) [.char '\uFEFF'] false rest
  | _ => scanFrom gs.length ⟨0, 0⟩ [] false gs

end EnumHelpers.Source
