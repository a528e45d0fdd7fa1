import EnumHelpers.Number.Fault

/-!
# Constant — values

The exact value of a constant: an integer of any size, a rational, a text or a truth value.  A
text is kept as it is written in the source, with its quotes.  A rational may be integral; it is
a different constant from the integer, until `normalize` collapses it.
-/

namespace EnumHelpers

/-- The exact value of a constant. -/
inductive Constant where
  | whole (n : Int)
  | ratio (q : Rat)
  | text (s : String)
  | truth (b : Bool)
  deriving DecidableEq, Repr

namespace Constant

/-- The value with an integral rational collapsed to the integer. -/
def normalize : Constant → Constant
  | .ratio q => if q.den = 1 then .whole q.num else .ratio q
  | v => v

theorem normalize_normalize (v : Constant) : v.normalize.normalize = v.normalize := by
  cases v with
  | ratio q =>
    by_cases h : q.den = 1
    · simp [normalize, h]
    · simp [normalize, h]
  | _ => rfl

/-- The integer a constant stands for in an operation on integers. -/
def integer? : Constant → Option Int
  | .whole n => some n
  | .ratio q => if q.den = 1 then some q.num else none
  | _ => none

/-- The number a constant stands for in an operation on numbers. -/
def number? : Constant → Option Rat
  | .whole n => some n
  | .ratio q => some q
  | _ => none

/-- Why an expression is given no value. -/
inductive Refusal where
  | invalidRune (literal : String)
  | needsIntegers (symbol : String)
  | needsNumbers (symbol : String)
  | negativeShiftCount
  | divisionByZero
  | unknownOperator (symbol : String)
  | cannotNegate
  | unknownUnaryOperator (symbol : String)
  /-- The expression lies outside the constant subset. -/
  | outsideSubset
  /-- The name is no constant of the package. -/
  | notAConstant (name : String)
  /-- The constant has no expression of its own. -/
  | noExpression (name : String)
  deriving DecidableEq, Repr

/-- The wording of a refusal. -/
def Refusal.message : Refusal → String
  | .invalidRune literal => "invalid rune literal " ++ literal
  | .needsIntegers symbol => "operator " ++ symbol ++ " needs integer operands"
  | .needsNumbers symbol => "operator " ++ symbol ++ " needs numeric operands"
  | .negativeShiftCount => "negative shift count"
  | .divisionByZero => "division by zero"
  | .unknownOperator symbol => "unsupported operator " ++ symbol
  | .cannotNegate => "unary - needs a numeric operand"
  | .unknownUnaryOperator symbol => "unsupported unary operator " ++ symbol
  | .outsideSubset => "unsupported constant expression"
  | .notAConstant name => name ++ " is not a package constant"
  | .noExpression name => "missing value for constant " ++ name

/-- What stops the computation of a value. -/
inductive Failure where
  | refused (cause : Refusal)
  | fault (cause : Number.Fault)
  /-- The expression holds bytes that are no text. -/
  | notText
  /-- The constant is defined through itself. -/
  | cycle (name : String)
  deriving DecidableEq, Repr

end Constant
end EnumHelpers
