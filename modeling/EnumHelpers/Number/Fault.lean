import EnumHelpers.Text.Quoted

/-!
# Number — what can be wrong with a number

The causes for which a text is no number, or a number cannot be written or held, and the wording
of each.  Decimal integers are read and written up to a fixed number of digits.
-/

namespace EnumHelpers.Number

/-- The most digits a decimal integer may have to be read or written. -/
def digitLimit : Nat := 4300

/-- Why a text could not be read as a number, or a number could not be written or held. -/
inductive Fault where
  /-- The text is no integer in the base; base 0 takes the base from the text. -/
  | notInteger (base : Nat) (text : String)
  /-- A decimal integer has too many digits to be read. -/
  | tooManyDigits (count : Nat)
  /-- An integer has too many decimal digits to be written. -/
  | tooLongToWrite
  | notFraction (text : String)
  | notHexadecimalFloat
  | zeroDenominator
  /-- The number lies outside the range of what has to hold it. -/
  | outOfRange
  | negativeShift
  deriving DecidableEq, Repr

/-- A text in quotes as a fault shows it: no more than the first 200 characters. -/
def shortened (text : String) : String :=
  String.ofList ((Text.quoted text).toList.take 200)

/-- The wording of a fault; the two that the arithmetic itself raises have none. -/
def Fault.message : Fault → String
  | .notInteger base text =>
    "invalid literal for int() with base " ++ toString base ++ ": " ++ shortened text
  | .tooManyDigits count =>
    "Exceeds the limit (" ++ toString digitLimit ++
      " digits) for integer string conversion: value has " ++ toString count ++
      " digits; use sys.set_int_max_str_digits() to increase the limit"
  | .tooLongToWrite =>
    "Exceeds the limit (" ++ toString digitLimit ++
      " digits) for integer string conversion; use sys.set_int_max_str_digits() to increase the limit"
  | .notFraction text => "Invalid literal for Fraction: " ++ Text.quoted text
  | .notHexadecimalFloat => "invalid hexadecimal floating-point string"
  | .zeroDenominator => ""
  | .outOfRange => ""
  | .negativeShift => "negative shift count"

end EnumHelpers.Number
