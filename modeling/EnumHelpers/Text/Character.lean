import EnumHelpers.Text.Alphabet
import EnumHelpers.Text.Unprintable

/-!
# Text — classes of characters

Which characters are letters, digits or parts of a word, which may begin or continue a name in
source text, and which are printed as they stand.  The classes are read off the ranges of
`EnumHelpers.Text.Alphabet`; a name in source text departs from them in a few compatibility
characters, listed here.
-/

namespace EnumHelpers.Text

/-- Whether `n` lies in one of the ascending ranges. -/
def inRanges : List (Nat × Nat) → Nat → Bool
  | [], _ => false
  | (first, last) :: rest, n =>
    if n < first then false else if n ≤ last then true else inRanges rest n

/-- A letter of any script. -/
def isLetter (c : Char) : Bool :=
  inRanges letterRanges c.toNat

/-- The distance of `n` from the last of the ascending zeros not above it, when below ten. -/
def digitAbove : List Nat → Nat → Option Nat
  | [], _ => none
  | z :: rest, n => if n < z then none else if n < z + 10 then some (n - z) else digitAbove rest n

/-- The value of a decimal digit of any script. -/
def decimalValue? (c : Char) : Option Nat :=
  digitAbove zeros c.toNat

/-- A decimal digit of any script. -/
def isDecimal (c : Char) : Bool :=
  (decimalValue? c).isSome

/-- A digit: a decimal one, or a superscript, subscript or enclosed one. -/
def isDigit (c : Char) : Bool :=
  isDecimal c || inRanges singleDigitRanges c.toNat

/-- A letter, or any character that stands for a number. -/
def isLetterOrNumber (c : Char) : Bool :=
  isLetter c || isDecimal c || inRanges numberLetterRanges c.toNat ||
    inRanges otherNumberRanges c.toNat

/-- A character of a word: a letter, a number or the low line. -/
def isWordChar (c : Char) : Bool :=
  c == '_' || isLetterOrNumber c

/-- A character that is printed as it stands. -/
def isPrintable (c : Char) : Bool :=
  !inRanges unprintableRanges c.toNat

/-- Letters that no name in source text begins with: their compatibility forms are spaces or
marks. -/
def nonStartRanges : List (Nat × Nat) := [
  (0x37a, 0x37a), (0xe33, 0xe33), (0xeb3, 0xeb3), (0x2e2f, 0x2e2f), (0xfc5e, 0xfc63),
  (0xfdfa, 0xfdfb), (0xfe70, 0xfe70), (0xfe72, 0xfe72), (0xfe74, 0xfe74), (0xfe76, 0xfe76),
  (0xfe78, 0xfe78), (0xfe7a, 0xfe7a), (0xfe7c, 0xfe7c), (0xfe7e, 0xfe7e), (0xff9e, 0xff9f)]

/-- Characters other than letters that a name in source text may begin with. -/
def extraStartRanges : List (Nat × Nat) := [
  (0x1885, 0x1886), (0x2118, 0x2118), (0x212e, 0x212e)]

/-- Letters that no name in source text continues with. -/
def nonContinueRanges : List (Nat × Nat) := [
  (0x37a, 0x37a), (0x2e2f, 0x2e2f), (0xfc5e, 0xfc63), (0xfdfa, 0xfdfb), (0xfe70, 0xfe70),
  (0xfe72, 0xfe72), (0xfe74, 0xfe74), (0xfe76, 0xfe76), (0xfe78, 0xfe78), (0xfe7a, 0xfe7a),
  (0xfe7c, 0xfe7c), (0xfe7e, 0xfe7e)]

/-- Characters of no letter, mark, number or connector class that continue a name. -/
def extraContinueRanges : List (Nat × Nat) := [
  (0xb7, 0xb7), (0x387, 0x387), (0x1369, 0x1371), (0x19da, 0x19da), (0x2118, 0x2118),
  (0x212e, 0x212e)]

/-- A character that begins a name in source text: the low line, or a letter. -/
def startsName (c : Char) : Bool :=
  let n := c.toNat
  c == '_' ||
    ((isLetter c || inRanges numberLetterRanges n) && !inRanges nonStartRanges n) ||
    inRanges extraStartRanges n

/-- A character that continues a name in source text. -/
def continuesName (c : Char) : Bool :=
  let n := c.toNat
  ((isLetter c || inRanges numberLetterRanges n || inRanges markRanges n || isDecimal c ||
      inRanges connectorRanges n) && !inRanges nonContinueRanges n) ||
    inRanges extraContinueRanges n

end EnumHelpers.Text
