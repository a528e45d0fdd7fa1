import EnumHelpers.Source.Token

/-!
# Source — the extent of literals

How far a literal at the front of a text reaches.  A scan gives the number of glyphs it takes, or
nothing when its form is not there; of several forms the longest is taken.  Single low lines may
stand between digits.
-/

namespace EnumHelpers.Source
open Text

/-- A scan takes glyphs from the front of a text, and gives their number. -/
abbrev Scan := List Glyph → Option Nat

namespace Scan

/-- One character that passes a test. -/
def one (test : Char → Bool) : Scan
  | .char c :: _ => if test c then some 1 else none
  | _ => none

/-- A given character. -/
def exactly (c : Char) : Scan := one (· == c)

/-- The first scan, and then the second on what it leaves. -/
def andThen (a b : Scan) : Scan := fun gs =>
  match a gs with
  | some n => (b (gs.drop n)).map (n + ·)
  | none => none

/-- Several scans, one after another. -/
def row : List Scan → Scan
  | [] => fun _ => some 0
  | s :: rest => andThen s (row rest)

/-- What the scan takes, or nothing at all. -/
def optional (a : Scan) : Scan := fun gs => some ((a gs).getD 0)

/-- The longer of two extents. -/
def longer : Option Nat → Option Nat → Option Nat
  | some m, some n => some (max m n)
  | some m, none => some m
  | none, e => e

/-- The longest of several scans. -/
def longest (scans : List Scan) : Scan := fun gs =>
  scans.foldl (fun best s => longer best (s gs)) none

/-- The number of glyphs that go on a run of digits. -/
def digitsMore (test : Char → Bool) : List Glyph → Nat
  | .char c :: rest =>
    if test c then 1 + digitsMore test rest
    else if c = '_' then
      match rest with
      | .char d :: rest' => if test d then 2 + digitsMore test rest' else 0
      | _ => 0
    else 0
  | _ => 0

/-- A run of digits. -/
def digits (test : Char → Bool) : Scan
  | .char c :: rest => if test c then some (1 + digitsMore test rest) else none
  | _ => none

/-- A given number of characters that pass a test. -/
def times (test : Char → Bool) (n : Nat) : Scan := row (List.replicate n (one test))

end Scan

open Scan

/-- A decimal digit. -/
def isDecimalDigit (c : Char) : Bool := '0' ≤ c && c ≤ '9'

/-- An octal digit. -/
def isOctalDigit (c : Char) : Bool := '0' ≤ c && c ≤ '7'

/-- A binary digit. -/
def isBinaryDigit (c : Char) : Bool := c == '0' || c == '1'

/-- A hexadecimal digit. -/
def isHexadecimalDigit (c : Char) : Bool :=
  isDecimalDigit c || ('a' ≤ c && c ≤ 'f') || ('A' ≤ c && c ≤ 'F')

/-- One of two characters. -/
def either (a b : Char) : Scan := one fun c => c == a || c == b

/-- A low line that may be left out. -/
def lowLine : Scan := optional (exactly '_')

/-- An integer literal: binary, decimal, octal or hexadecimal. -/
def intScan : Scan := longest [
  row [exactly '0', either 'b' 'B', lowLine, digits isBinaryDigit],
  exactly '0',
  fun gs => if (one (fun c => isDecimalDigit c && c != '0') gs).isSome then digits isDecimalDigit gs
    else none,
  row [exactly '0', optional (either 'o' 'O'), lowLine, digits isOctalDigit],
  row [exactly '0', either 'x' 'X', lowLine, digits isHexadecimalDigit]]

/-- An exponent after one of two letters. -/
def exponentScan (a b : Char) : Scan :=
  row [either a b, optional (either '+' '-'), digits isDecimalDigit]

/-- A floating-point literal: decimal, or hexadecimal with a binary exponent. -/
def floatScan : Scan := longest [
  row [digits isDecimalDigit, exactly '.', optional (digits isDecimalDigit),
    optional (exponentScan 'e' 'E')],
  row [digits isDecimalDigit, exponentScan 'e' 'E'],
  row [exactly '.', digits isDecimalDigit, optional (exponentScan 'e' 'E')],
  row [exactly '0', either 'x' 'X', lowLine, digits isHexadecimalDigit, exactly '.',
    optional (digits isHexadecimalDigit), exponentScan 'p' 'P'],
  row [exactly '0', either 'x' 'X', lowLine, digits isHexadecimalDigit, exponentScan 'p' 'P'],
  row [exactly '0', either 'x' 'X', exactly '.', digits isHexadecimalDigit, exponentScan 'p' 'P']]

/-- An imaginary literal: a number with the letter `i` after it. -/
def imaginaryScan : Scan :=
  andThen (longest [digits isDecimalDigit, intScan, floatScan]) (exactly 'i')

/-- A number, with its kind. -/
def number? (gs : List Glyph) : Option (TokenKind × Nat) :=
  match imaginaryScan gs, floatScan gs, intScan gs with
  | some n, _, _ => some (.imaginary, n)
  | none, some m, some n => if n < m then some (.float, m) else some (.int, n)
  | none, some m, none => some (.float, m)
  | none, none, some n => some (.int, n)
  | none, none, none => none

/-- The characters with an escape of one letter in a rune literal. -/
def isRuneEscape (c : Char) : Bool := "abfnrtv\\'\"".toList.contains c

/-- What stands between the quotes of a rune literal. -/
def runeBodyScan : Scan
  | .char '\\' :: rest =>
    (longest [row [exactly 'x', times isHexadecimalDigit 2], times isOctalDigit 3,
      row [exactly 'u', times isHexadecimalDigit 4],
      row [exactly 'U', times isHexadecimalDigit 8], one isRuneEscape] rest).map (1 + ·)
  | .char c :: _ => if c = '\'' ∨ c = '\x00' then none else some 1
  | .stray _ :: _ => some 1
  | [] => none

/-- A rune literal. -/
def runeScan : Scan := row [exactly '\'', runeBodyScan, exactly '\'']

/-- An escape in a string literal: any character but three, which digits must follow. -/
def stringEscapeScan : Scan
  | .char '\\' :: .char c :: rest =>
    if c = 'x' then (times isHexadecimalDigit 2 rest).map (2 + ·)
    else if c = 'u' then (times isHexadecimalDigit 4 rest).map (2 + ·)
    else if c = 'U' then (times isHexadecimalDigit 8 rest).map (2 + ·)
    else if c = '\x00' then none
    else some 2
  | .char '\\' :: .stray _ :: _ => some 2
  | _ => none

/-- The glyphs up to the closing quote of a string literal, when it is closed on its line;
`skip` of them belong to an escape. -/
def stringBody (skip : Nat) : List Glyph → Option Nat
  | [] => none
  | g :: rest =>
    match skip with
    | k + 1 => (stringBody k rest).map (1 + ·)
    | 0 =>
      match g with
      | .char '"' => some 1
      | .char '\\' =>
        match stringEscapeScan (g :: rest) with
        | some n => (stringBody (n - 1) rest).map (1 + ·)
        | none => none
      | .char c =>
        if c = '\n' ∨ c = '\x00' then none else (stringBody 0 rest).map (1 + ·)
      | .stray _ => (stringBody 0 rest).map (1 + ·)

/-- The glyphs up to a closing back quote. -/
def rawStringBody : List Glyph → Option Nat
  | [] => none
  | .char c :: rest =>
    if c = '\x60' then some 1
    else if c = '\x00' then none
    else (rawStringBody rest).map (1 + ·)
  | .stray _ :: rest => (rawStringBody rest).map (1 + ·)

/-- A string literal, between quotes or between back quotes. -/
def stringScan : Scan
  | .char c :: rest =>
    if c = '"' then (stringBody 0 rest).map (1 + ·)
    else if c = '\x60' then (rawStringBody rest).map (1 + ·)
    else none
  | _ => none

end EnumHelpers.Source
