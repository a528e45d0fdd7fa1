import EnumHelpers.Constant.Basic
import EnumHelpers.Number.Fraction

/-!
# Constant — literals

The value of an integer, floating-point or rune literal.  A leading zero makes an integer octal;
a decimal float is exact; a rune literal is the code point it names.
-/

namespace EnumHelpers.Constant
open Number Text

/-- The characters of a literal without its low lines. -/
def withoutLowLines (text : String) : List Char :=
  text.toList.filter (· ≠ '_')

/-- Whether a literal is marked with one of the letters after a leading zero. -/
def hasMark (marks : List Char) : List Char → Bool
  | '0' :: c :: _ => marks.contains c
  | _ => false

/-- The value of an integer literal. -/
def integerLiteral (text : String) : Except Failure Int :=
  let digits := withoutLowLines text
  let base :=
    if hasMark ['x', 'X', 'b', 'B', 'o', 'O'] digits then 0
    else if digits.head? = some '0' ∧ 1 < digits.length then 8
    else 10
  (readInteger base (String.ofList digits)).mapError .fault

/-- The value of a floating-point literal. -/
def floatLiteral (text : String) : Except Failure Rat :=
  let digits := withoutLowLines text
  (if hasMark ['x', 'X'] digits then readHexadecimalFloat (digits.drop 2)
    else readFraction (String.ofList digits)).mapError .fault

/-- The code point of a one-letter escape. -/
def runeEscape? : Char → Option Int
  | 'a' => some 0x07
  | 'b' => some 0x08
  | 'f' => some 0x0C
  | 'n' => some 0x0A
  | 'r' => some 0x0D
  | 't' => some 0x09
  | 'v' => some 0x0B
  | '\\' => some 0x5C
  | '\'' => some 0x27
  | '"' => some 0x22
  | _ => none

/-- The value of the characters between the quotes of a rune literal. -/
def runeBody (text : String) : List Char → Except Failure Int
  | '\\' :: kind :: rest =>
    match runeEscape? kind with
    | some n => .ok n
    | none =>
      if kind = 'x' ∨ kind = 'u' ∨ kind = 'U' then
        (readInteger 16 (String.ofList rest)).mapError .fault
      else if isDigit kind then
        (readInteger 8 (String.ofList (kind :: rest))).mapError .fault
      else .error (.refused (.invalidRune text))
  | '\\' :: [] => .error (.refused (.invalidRune text))
  | [c] => .ok c.toNat
  | _ => .error (.refused (.invalidRune text))

/-- The value of a rune literal, whose first and last characters are its quotes. -/
def runeLiteral (text : String) : Except Failure Int :=
  runeBody text (text.toList.drop 1).dropLast

end EnumHelpers.Constant
