import EnumHelpers.Symbol.Table

/-!
# Symbol tables — exact integers

The exact integer that a recorded value stands for.  An integer stands for itself, and a text for
the integer it spells: in the base its prefix names, or in octal when it has a leading zero.
Anything else has no exact integer.
-/

namespace EnumHelpers.Recorded
open Number Text

/-- The form of a constant in a message; a rational is shown with its two parts. -/
def shownConstant : Constant → Except Failure String
  | .whole n => (integerText n).mapError .number
  | .ratio q => do
    let n ← (integerText q.num).mapError Failure.number
    let d ← (integerText q.den).mapError Failure.number
    .ok ("Fraction(" ++ n ++ ", " ++ d ++ ")")
  | .text s => .ok (quoted s)
  | .truth b => .ok (if b then "True" else "False")

/-- The form of a recorded value in a message. -/
def shown : Recorded → Except Failure String
  | .absent => .ok "None"
  | .exact c => shownConstant c
  | .other v => Failure.shown v

/-- The failure to render a value as an integer. -/
def refuse (name : Json) (v : Recorded) : Except Failure Int := do
  let constant ← Failure.plain name
  let s ← v.shown
  .error (.value (.notExact constant s))

/-- Whether a text, without its signs, is made of digits and begins with a zero. -/
def looksOctal (cs : List Char) : Bool :=
  let digits := cs.dropWhile fun c => c == '+' || c == '-'
  digits.head? == some '0' && digits.all isDigit

/-- The exact integer of a recorded value, for the constant of the given name. -/
def integer (v : Recorded) (name : Json) : Except Failure Int :=
  match v with
  | .exact (.whole n) => .ok n
  | .exact (.text s) =>
    let body := trim s
    match readInteger 0 body with
    | .ok n => .ok n
    | .error _ =>
      if looksOctal body.toList then (readInteger 8 body).mapError .number else refuse name v
  | .absent | .exact (.truth _) => do
    let constant ← Failure.plain name
    let s ← v.shown
    .error (.value (.notAnInteger constant s))
  | _ => refuse name v

end EnumHelpers.Recorded
