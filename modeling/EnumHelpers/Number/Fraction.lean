import EnumHelpers.Number.Integer
import EnumHelpers.Number.Binary64

/-!
# Number — fractions in text

Reading an exact fraction: digits with a denominator after a slash, or digits with a decimal
part and an exponent.  A hexadecimal number with a binary exponent is read through double
precision, so its value is the nearest number that has a 53-bit mantissa.
-/

namespace EnumHelpers.Number
open Text

/-- The decimal digits at the front of a text, with the text after them. -/
def spanDecimal (cs : List Char) : List Char × List Char :=
  cs.span isDecimal

/-- The part of a fraction after its numerator. -/
inductive FractionTail where
  | denominator (digits : List Char)
  /-- The digits after the point, and the exponent as a sign and digits. -/
  | decimal (digits : List Char) (exponent : Option (Bool × List Char))

/-- An exponent at the front of a text: none when the letter is not followed by digits. -/
def takeExponent (cs : List Char) : Option ((Bool × List Char) × List Char) :=
  match cs with
  | e :: rest =>
    if e = 'e' ∨ e = 'E' then
      let (negative, body) := match rest with
        | '-' :: r => (true, r)
        | '+' :: r => (false, r)
        | r => (false, r)
      let (digits, after) := spanDecimal body
      if digits.isEmpty then none else some ((negative, digits), after)
    else none
  | [] => none

/-- The part of a fraction after its numerator, with the text after it. -/
def takeFractionTail (cs : List Char) : FractionTail × List Char :=
  let plain (digits after : List Char) : FractionTail × List Char :=
    match takeExponent after with
    | some (exponent, rest) => (.decimal digits (some exponent), rest)
    | none => (.decimal digits none, after)
  match cs with
  | '/' :: rest =>
    let (digits, after) := spanDecimal rest
    if digits.isEmpty then (.decimal [] none, cs) else (.denominator digits, after)
  | '.' :: rest =>
    let (digits, after) := spanDecimal rest
    plain digits after
  | _ => plain [] cs

/-- The natural number that decimal digits spell; no digits spell zero. -/
def decimalNatural (digits : List Char) : Except Fault Nat :=
  if digits.isEmpty then .ok 0
  else
    let plain := digits.map plainChar
    readNatural 10 (String.ofList digits) plain

/-- The magnitude of a fraction with the given digits before its tail. -/
def fractionMagnitude (whole : List Char) : FractionTail → Except Fault Rat
  | .denominator digits => do
    let n ← decimalNatural whole
    let d ← decimalNatural digits
    if d = 0 then .error .zeroDenominator else .ok (mkRat n d)
  | .decimal digits exponent => do
    let n ← decimalNatural whole
    let f ← decimalNatural digits
    let n := n * Nat.pow 10 digits.length + f
    let d := Nat.pow 10 digits.length
    match exponent with
    | none => .ok (mkRat n d)
    | some (negative, e) =>
      let e ← decimalNatural e
      .ok (if negative then mkRat n (d * Nat.pow 10 e) else mkRat (n * Nat.pow 10 e : Nat) d)

/-- The fraction a text spells. -/
def readFraction (text : String) : Except Fault Rat :=
  let (negative, body) := match trimStartChars text.toList with
    | '-' :: r => (true, r)
    | '+' :: r => (false, r)
    | r => (false, r)
  let (whole, rest) := spanDecimal body
  let begun := !whole.isEmpty || (match rest with
    | '.' :: c :: _ => isDecimal c
    | _ => false)
  let (tail, after) := takeFractionTail rest
  if begun && after.all isBlank then
    (fractionMagnitude whole tail).map fun q => if negative then -q else q
  else .error (.notFraction text)

/-- The hexadecimal digits at the front of a text, with the text after them. -/
def spanHexadecimal (cs : List Char) : List Nat × List Char :=
  let (ds, after) := cs.span fun c => (digitIn? 16 c).isSome
  (ds.filterMap (digitIn? 16), after)

/-- A binary exponent at the front of a text, with the text after it; no exponent is zero. -/
def takeBinaryExponent (cs : List Char) : Option (Int × List Char) :=
  match cs with
  | p :: rest =>
    if p = 'p' ∨ p = 'P' then
      let (negative, body) := match rest with
        | '-' :: r => (true, r)
        | '+' :: r => (false, r)
        | r => (false, r)
      let (digits, after) := body.span fun c => (digitIn? 10 c).isSome
      if digits.isEmpty then none
      else
        let e := ofDigits 10 0 (digits.filterMap (digitIn? 10))
        some (if negative then -(e : Int) else e, after)
    else some (0, cs)
  | [] => some (0, [])

/-- The double-precision value of `mantissa * 2 ^ e`, when it is in range. -/
def binaryValue (mantissa : Nat) (e : Int) : Except Fault Rat :=
  let bits : Int := mantissa.log2 + 1
  if mantissa = 0 ∨ e + bits < Binary64.leastExponent - 1 then .ok 0
  else if Binary64.overflowExponent < e + bits then .error .outOfRange
  else
    let (n, d) := Binary64.fractionOf mantissa e
    match (Binary64.ofRatio false n d).toRat? with
    | some q => .ok q
    | none => .error .outOfRange

/-- The double-precision value of a hexadecimal number, given without the letters that mark it
as hexadecimal. -/
def readHexadecimalFloat (cs : List Char) : Except Fault Rat :=
  let (whole, rest) := spanHexadecimal cs
  let (fraction, rest) := match rest with
    | '.' :: r => spanHexadecimal r
    | r => ([], r)
  if whole.isEmpty && fraction.isEmpty then .error .notHexadecimalFloat
  else
    match takeBinaryExponent rest with
    | some (e, after) => do
      let q ← binaryValue (ofDigits 16 0 (whole ++ fraction)) (e - 4 * fraction.length)
      if after.all isMargin then .ok q else .error .notHexadecimalFloat
    | none => .error .notHexadecimalFloat

end EnumHelpers.Number
