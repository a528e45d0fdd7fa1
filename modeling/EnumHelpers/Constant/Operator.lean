import EnumHelpers.Constant.Basic
import EnumHelpers.Number.Bits

/-!
# Constant — operators

The operators on constants.  Arithmetic is exact: integers never overflow, the division of two
integers is cut off toward zero and that of other numbers is exact, and a rational result that is
integral is collapsed.  Shifts and bitwise operators need integers, or rationals that are
integral; the complement of a value of an unsigned type stays within the bits of the type.
-/

namespace EnumHelpers.Constant
open Number

/-- A binary operator. -/
inductive BinaryOp where
  | add | sub | mul | div | rem | and | or | xor | andNot | shiftLeft | shiftRight
  /-- An operator that gives no constant. -/
  | other (symbol : String)
  deriving DecidableEq, Repr

/-- The symbol of a binary operator. -/
def BinaryOp.symbol : BinaryOp → String
  | .add => "+"
  | .sub => "-"
  | .mul => "*"
  | .div => "/"
  | .rem => "%"
  | .and => "&"
  | .or => "|"
  | .xor => "^"
  | .andNot => "&^"
  | .shiftLeft => "<<"
  | .shiftRight => ">>"
  | .other s => s

/-- The binary operator with a symbol. -/
def BinaryOp.ofSymbol (s : String) : BinaryOp :=
  ([.add, .sub, .mul, .div, .rem, .and, .or, .xor, .andNot, .shiftLeft, .shiftRight].find?
    fun op => op.symbol = s).getD (.other s)

/-- A unary operator. -/
inductive UnaryOp where
  | plus | minus | complement | not
  /-- An operator that gives no constant. -/
  | other (symbol : String)
  deriving DecidableEq, Repr

/-- The symbol of a unary operator. -/
def UnaryOp.symbol : UnaryOp → String
  | .plus => "+"
  | .minus => "-"
  | .complement => "^"
  | .not => "!"
  | .other s => s

/-- The unary operator with a symbol. -/
def UnaryOp.ofSymbol (s : String) : UnaryOp :=
  ([.plus, .minus, .complement, .not].find? fun op => op.symbol = s).getD (.other s)

/-- The largest count an integer other than zero is shifted up by. -/
def shiftLimit : Nat := Nat.pow 2 35

/-- The integer operand of an operator. -/
def requireInteger (op : BinaryOp) (v : Constant) : Except Failure Int :=
  match v.integer? with
  | some n => .ok n
  | none => .error (.refused (.needsIntegers op.symbol))

/-- The result of shifting an integer up by a count. -/
def shiftUp (n : Int) (count : Nat) : Except Failure Int :=
  if n = 0 then .ok 0
  else if shiftLimit < count then .error (.fault .outOfRange)
  else .ok (n * (Nat.pow 2 count : Nat))

/-- The result of a shift, whose count must not be negative. -/
def shift (op : BinaryOp) (n count : Int) : Except Failure Constant :=
  if count < 0 then .error (.refused .negativeShiftCount)
  else if op = .shiftLeft then (shiftUp n count.toNat).map .whole
  else .ok (.whole (shiftDown n count.toNat))

/-- The result of an operator on the bits of two integers, or of the remainder. -/
def bitwise (op : BinaryOp) (a b : Int) : Except Failure Constant :=
  match op with
  | .and => .ok (.whole (bitAnd a b))
  | .or => .ok (.whole (bitOr a b))
  | .xor => .ok (.whole (bitXor a b))
  | .andNot => .ok (.whole (bitAnd a (bitNot b)))
  | _ => if b = 0 then .error (.refused .divisionByZero) else .ok (.whole (a.tmod b))

/-- The quotient of two numbers: cut off toward zero when both are integers, else exact. -/
def divide (left right : Constant) (p q : Rat) : Except Failure Constant :=
  if q = 0 then .error (.refused .divisionByZero)
  else match left, right with
    | .whole a, .whole b => .ok (.whole (a.tdiv b))
    | _, _ => .ok (Constant.ratio (p / q)).normalize

/-- The result of an arithmetic operator on numbers. -/
def arithmetic (op : BinaryOp) (left right : Constant) : Except Failure Constant :=
  match left.number?, right.number? with
  | some p, some q =>
    match op with
    | .add => .ok (Constant.ratio (p + q)).normalize
    | .sub => .ok (Constant.ratio (p - q)).normalize
    | .mul => .ok (Constant.ratio (p * q)).normalize
    | .div => divide left right p q
    | _ => .error (.refused (.unknownOperator op.symbol))
  | _, _ => .error (.refused (.needsNumbers op.symbol))

/-- The result of a binary operator on two constants. -/
def applyBinary (op : BinaryOp) (left right : Constant) : Except Failure Constant :=
  match op with
  | .shiftLeft | .shiftRight => do
    let n ← requireInteger op left
    let count ← requireInteger op right
    shift op n count
  | .and | .or | .xor | .andNot | .rem => do
    let a ← requireInteger op left
    let b ← requireInteger op right
    bitwise op a b
  | _ => arithmetic op left right

/-- The complement of an integer, within `bits` bits when there are any. -/
def complementWithin (bits : Option Nat) (n : Int) : Int :=
  match bits with
  | some (k + 1) => bitXor n (Nat.pow 2 (k + 1) - 1 : Nat)
  | _ => bitNot n

/-- The result of a unary operator on a constant; `bits` is the size of its unsigned type. -/
def applyUnary (op : UnaryOp) (v : Constant) (bits : Option Nat) : Except Failure Constant :=
  match op, v with
  | .plus, v => .ok v
  | .minus, .whole n => .ok (.whole (-n))
  | .minus, .ratio q => .ok (.ratio (-q))
  | .minus, _ => .error (.refused .cannotNegate)
  | .complement, v =>
    match v.integer? with
    | some n => .ok (.whole (complementWithin bits n))
    | none => .error (.refused (.needsIntegers op.symbol))
  | .not, .truth b => .ok (.truth !b)
  | _, _ => .error (.refused (.unknownUnaryOperator op.symbol))

end EnumHelpers.Constant
