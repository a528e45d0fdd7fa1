import EnumHelpers.Number.Fault
import EnumHelpers.Text.Blank

/-!
# Number — integers in text

Reading an integer in a given base, or in the base its prefix names, and writing one in decimal.
Digits of any script count, single low lines may stand between digits, and blanks may surround
the whole.  A base that is no power of two reads at most `digitLimit` digits.
-/

namespace EnumHelpers.Number
open Text

/-- The character that stands for `c` when an integer is read: the digits of every script are
one, and so are the blanks beyond the first 128 characters. -/
def plainChar (c : Char) : Char :=
  if c.toNat < 128 then c
  else if isBlank c then ' '
  else match decimalValue? c with
    | some d => Nat.digitChar d
    | none => c

/-- The blanks that may surround an integer. -/
def isMargin (c : Char) : Bool :=
  c == ' ' || (0x09 ≤ c.toNat && c.toNat ≤ 0x0D)

/-- The value of a digit or letter as a digit of some base up to 36. -/
def digitValue? (c : Char) : Option Nat :=
  let n := c.toNat
  if 0x30 ≤ n ∧ n ≤ 0x39 then some (n - 0x30)
  else if 0x41 ≤ n ∧ n ≤ 0x5A then some (n - 0x41 + 10)
  else if 0x61 ≤ n ∧ n ≤ 0x7A then some (n - 0x61 + 10)
  else none

/-- The value of `c` as a digit of `base`. -/
def digitIn? (base : Nat) (c : Char) : Option Nat :=
  match digitValue? c with
  | some d => if d < base then some d else none
  | none => none

/-- The digits at the front of a text, with the text after them.  `gap` says that the character
before was a low line.  There is no result when a low line does not stand between digits. -/
def takeDigits (base : Nat) (gap : Bool) : List Char → Option (List Nat × List Char)
  | [] => if gap then none else some ([], [])
  | c :: rest =>
    if c = '_' then
      if gap then none else takeDigits base true rest
    else
      match digitIn? base c with
      | some d => (takeDigits base false rest).map fun (ds, after) => (d :: ds, after)
      | none => if gap then none else some ([], c :: rest)

/-- The number that digits spell in a base, after the digits that spell `acc`. -/
def ofDigits (base : Nat) (acc : Nat) : List Nat → Nat
  | [] => acc
  | d :: ds => ofDigits base (acc * base + d) ds

/-- The base that a prefix letter names. -/
def prefixBase? (c : Char) : Option Nat :=
  if c = 'x' ∨ c = 'X' then some 16
  else if c = 'o' ∨ c = 'O' then some 8
  else if c = 'b' ∨ c = 'B' then some 2
  else none

/-- The base to read digits in, the digits themselves without their prefix, and whether only
zeros are admitted. -/
def chooseBase (base : Nat) (cs : List Char) : Nat × List Char × Bool :=
  match cs with
  | '0' :: x :: rest =>
    let afterPrefix := if rest.head? = some '_' then rest.drop 1 else rest
    match prefixBase? x with
    | some b =>
      if base = 0 ∨ base = b then (b, afterPrefix, false)
      else (base, cs, false)
    | none => if base = 0 then (10, cs, true) else (base, cs, false)
  | '0' :: [] => if base = 0 then (10, cs, true) else (base, cs, false)
  | _ => (if base = 0 then 10 else base, cs, false)

/-- Whether a base reads any number of digits. -/
def isBinaryBase (base : Nat) : Bool :=
  base == 2 || base == 4 || base == 8 || base == 16 || base == 32

/-- The natural number that the characters spell, up to a margin. -/
def readNatural (base : Nat) (text : String) (cs : List Char) : Except Fault Nat :=
  let (b, body, onlyZeros) := chooseBase base cs
  if body.head? = some '_' then .error (.notInteger base text)
  else
    match takeDigits b false body with
    | none => .error (.notInteger base text)
    | some (ds, after) =>
      if !isBinaryBase b && digitLimit < ds.length then .error (.tooManyDigits ds.length)
      else if ds.isEmpty || !after.all isMargin || (onlyZeros && ds.any (· != 0)) then
        .error (.notInteger base text)
      else .ok (ofDigits b 0 ds)

/-- The integer a text spells in a base; base 0 takes the base from a prefix. -/
def readInteger (base : Nat) (text : String) : Except Fault Int :=
  match (text.toList.map plainChar).dropWhile isMargin with
  | '-' :: cs => (readNatural base text cs).map fun n => -(n : Int)
  | '+' :: cs => (readNatural base text cs).map fun n => (n : Int)
  | cs => (readNatural base text cs).map fun n => (n : Int)

/-- The decimal text of an integer, when it is short enough to be written. -/
def integerText (n : Int) : Except Fault String :=
  if n.natAbs < Nat.pow 10 digitLimit then .ok (toString n) else .error .tooLongToWrite

end EnumHelpers.Number
