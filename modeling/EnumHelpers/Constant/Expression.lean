import EnumHelpers.Constant.Operator

/-!
# Constant — expressions

The expressions that give constants their values.  Literals keep the text they are written with.
What lies outside the constant subset is kept as `unsupported`, and an expression that holds bytes
that are no text as `notText`.
-/

namespace EnumHelpers

/-- An expression. -/
inductive Expr where
  | int (text : String)
  | float (text : String)
  | rune (text : String)
  | string (text : String)
  | truth (b : Bool)
  /-- The number of the declaration in its group. -/
  | iota
  | name (s : String)
  | paren (e : Expr)
  | unary (op : Constant.UnaryOp) (e : Expr)
  | binary (op : Constant.BinaryOp) (left right : Expr)
  /-- A name applied to one operand, in the form of a conversion. -/
  | conversion (type : String) (e : Expr)
  | unsupported
  | notText
  deriving DecidableEq, Repr, Inhabited

namespace Expr

/-- How tightly a binary operator binds, from 1 for the loosest to 5. -/
def precedence (op : Constant.BinaryOp) : Nat :=
  let s := op.symbol
  if ["*", "/", "%", "<<", ">>", "&", "&^"].contains s then 5
  else if ["+", "-", "|", "^"].contains s then 4
  else if ["==", "!=", "<", "<=", ">", ">="].contains s then 3
  else if s = "&&" then 2
  else 1

/-- A chain of operands with the operators of one precedence applied, from the left. -/
def applyLevel (level : Nat) (e : Expr) :
    List (Constant.BinaryOp × Expr) → Expr × List (Constant.BinaryOp × Expr)
  | [] => (e, [])
  | (op, operand) :: rest =>
    if precedence op = level then applyLevel level (.binary op e operand) rest
    else
      let (operand, rest) := applyLevel level operand rest
      (e, (op, operand) :: rest)

/-- The expression that a chain of operands makes: tighter operators are applied first. -/
def ofChain (e : Expr) (rest : List (Constant.BinaryOp × Expr)) : Expr :=
  ([5, 4, 3, 2, 1].foldl (fun (e, rest) level => applyLevel level e rest) (e, rest)).1

end Expr
end EnumHelpers
