/-!
# Number — double-precision binary numbers

A double-precision number as its exact value: a mantissa below 2⁵³ times a power of two from
2⁻¹⁰⁷⁴ on.  A quotient of natural numbers is rounded to the nearest of them, a tie to the even
mantissa, and the shortest decimal digits that lead back to a number are found on the decimal
grids, coarsest first.
-/

namespace EnumHelpers.Number

/-- A double-precision number. -/
inductive Binary64 where
  /-- The number `mantissa * 2 ^ exponent`, negated when `negative` holds. -/
  | finite (negative : Bool) (mantissa : Nat) (exponent : Int)
  | infinite (negative : Bool)
  | notANumber
  deriving DecidableEq, Repr

namespace Binary64

/-- The bits of a mantissa. -/
def precision : Nat := 53

/-- The exponent of the smallest positive number. -/
def leastExponent : Int := -1074

/-- The first power of two that is too large. -/
def overflowExponent : Int := 1024

/-- The quotient rounded to the nearest natural number, a tie to the even one. -/
def roundQuotient (num den : Nat) : Nat :=
  let q := num / den
  let r := num % den
  if 2 * r < den then q
  else if den < 2 * r then q + 1
  else if q % 2 = 0 then q else q + 1

/-- The quotient `num / (den * 2 ^ e)`, as a numerator and a denominator. -/
def scaleDown (num den : Nat) (e : Int) : Nat × Nat :=
  match e with
  | .ofNat k => (num, den * Nat.pow 2 k)
  | .negSucc k => (num * Nat.pow 2 (k + 1), den)

/-- The largest `e` with `2 ^ e ≤ num / den`, for positive numbers. -/
def floorLog2 (num den : Nat) : Int :=
  let guess : Int := (num.log2 : Int) - (den.log2 : Int)
  let (n, d) := scaleDown num den guess
  if d ≤ n then guess else guess - 1

/-- The number nearest to `num / den`, for a positive `den`. -/
def ofRatio (negative : Bool) (num den : Nat) : Binary64 :=
  if num = 0 then .finite negative 0 leastExponent
  else
    let e := max (floorLog2 num den - (precision - 1 : Nat)) leastExponent
    let (n, d) := scaleDown num den e
    let m := roundQuotient n d
    let (m, e) := if m = Nat.pow 2 precision then (Nat.pow 2 (precision - 1), e + 1) else (m, e)
    if overflowExponent < e + precision ∧ Nat.pow 2 (precision - 1) ≤ m then .infinite negative
    else .finite negative m e

/-- The exact value of a finite number. -/
def toRat? : Binary64 → Option Rat
  | .finite negative m e =>
    let magnitude : Rat := match e with
      | .ofNat k => ((m * Nat.pow 2 k : Nat) : Rat)
      | .negSucc k => mkRat m (Nat.pow 2 (k + 1))
    some (if negative then -magnitude else magnitude)
  | _ => none

/-- The value `m * 2 ^ e` as a numerator and a denominator. -/
def fractionOf (m : Nat) (e : Int) : Nat × Nat :=
  match e with
  | .ofNat k => (m * Nat.pow 2 k, 1)
  | .negSucc k => (m, Nat.pow 2 (k + 1))

/-- Whether `10 ^ k ≤ num / den`. -/
def reachesPower (num den : Nat) (k : Int) : Bool :=
  match k with
  | .ofNat j => den * Nat.pow 10 j ≤ num
  | .negSucc j => den ≤ num * Nat.pow 10 (j + 1)

/-- The largest `k` with `10 ^ k ≤ num / den`, for positive numbers: the binary logarithm leaves
two candidates. -/
def floorLog10 (num den : Nat) : Int :=
  let k := Int.fdiv (floorLog2 num den * 30103) 100000
  if reachesPower num den (k + 1) then k + 1 else if reachesPower num den k then k else k - 1

/-- The quotient `num / (den * 10 ^ s)`, as a numerator and a denominator. -/
def scaleDecimal (num den : Nat) (s : Int) : Nat × Nat :=
  match s with
  | .ofNat k => (num, den * Nat.pow 10 k)
  | .negSucc k => (num * Nat.pow 10 (k + 1), den)

/-- Whether `a / b < c / d`, or `≤` when `closed` holds. -/
def ratioBelow (closed : Bool) (a b c d : Nat) : Bool :=
  if closed then a * d ≤ c * b else a * d < c * b

/-- The point of the decimal grid of step `10 ^ s` that rounds to `mantissa * 2 ^ e`: of the two
neighbours of the value the nearer one in the interval of numbers that round to it, and the even
one of two that are equally near. -/
def gridPoint? (mantissa : Nat) (e s : Int) : Option Nat :=
  let closed := mantissa % 2 = 0
  let (n, d) := fractionOf (4 * mantissa) (e - 2)
  let lowStep := if mantissa = Nat.pow 2 (precision - 1) ∧ leastExponent < e then 1 else 2
  let (lowN, lowD) := fractionOf (4 * mantissa - lowStep) (e - 2)
  let (highN, highD) := fractionOf (4 * mantissa + 2) (e - 2)
  let (gn, gd) := scaleDecimal n d s
  let (ln, ld) := scaleDecimal lowN lowD s
  let (hn, hd) := scaleDecimal highN highD s
  let below := gn / gd
  let above := below + 1
  let belowFits := ratioBelow closed ln ld below 1
  let aboveFits := ratioBelow closed above 1 hn hd
  if belowFits && aboveFits then some (roundQuotient gn gd)
  else if belowFits then some below
  else if aboveFits then some above
  else none

/-- The shortest digits of `m * 2 ^ e`, with the power of ten of the last, among the grids with
`count` digits and more. -/
def shortestFrom (m : Nat) (e top : Int) : Nat → Int → Nat × Int
  | 0, count => ((gridPoint? m e (top - count + 1)).getD 0, top - count + 1)
  | fuel + 1, count =>
    match gridPoint? m e (top - count + 1) with
    | some p => if p = 0 then shortestFrom m e top fuel (count + 1) else (p, top - count + 1)
    | none => shortestFrom m e top fuel (count + 1)

/-- A natural number without its trailing zeros, and the power of ten taken away. -/
def dropZeros : Nat → Nat → Int → Nat × Int
  | 0, n, s => (n, s)
  | fuel + 1, n, s => if n % 10 = 0 ∧ n ≠ 0 then dropZeros fuel (n / 10) (s + 1) else (n, s)

/-- The shortest digits that lead back to `m * 2 ^ e`, with the power of ten of the last. -/
def shortestDigits (m : Nat) (e : Int) : Nat × Int :=
  let (n, d) := fractionOf m e
  let top := floorLog10 n d
  let (p, s) := shortestFrom m e top 17 1
  dropZeros 20 p s

/-- The text of an exponent: a sign and at least two digits. -/
def exponentText (e : Int) : String :=
  let digits := toString e.natAbs
  (if e < 0 then "e-" else "e+") ++ (if digits.length < 2 then "0" ++ digits else digits)

/-- Digits with the decimal point after the first `point` of them, positional from 10⁻⁴ up to
10¹⁶ and with an exponent outside; a whole number keeps one place. -/
def placePoint (digits : List Char) (point : Int) : String :=
  if -4 < point ∧ point ≤ 16 then
    if point ≤ 0 then
      "0." ++ String.ofList (List.replicate (-point).toNat '0' ++ digits)
    else
      let k := point.toNat
      if digits.length ≤ k then
        String.ofList (digits ++ List.replicate (k - digits.length) '0') ++ ".0"
      else String.ofList (digits.take k ++ '.' :: digits.drop k)
  else
    let fraction := digits.drop 1
    String.ofList (digits.take 1 ++ if fraction.isEmpty then [] else '.' :: fraction) ++
      exponentText (point - 1)

/-- The shortest text that leads back to a number. -/
def text : Binary64 → String
  | .notANumber => "nan"
  | .infinite negative => if negative then "-inf" else "inf"
  | .finite negative m e =>
    let sign := if negative then "-" else ""
    if m = 0 then sign ++ "0.0"
    else
      let (p, s) := shortestDigits m e
      let digits := (toString p).toList
      sign ++ placePoint digits (digits.length + s)

end Binary64
end EnumHelpers.Number
