import EnumHelpers.Constant.Expression
import EnumHelpers.Source.Pattern

/-!
# Source — expressions from trees

The expression that a tree stands for.  A literal keeps its text; a name or a word applied to one
operand has the form of a conversion, with or without type arguments.  All else that is no
constant expression is `unsupported`, and an expression that holds bytes that are no text is
`notText` as a whole.
-/

namespace EnumHelpers.Source
open Text Constant

/-- What the trees inside an expression stand for. -/
inductive Part where
  | token (t : Token)
  | operator (op : BinaryOp)
  | operand (e : Expr)
  | arguments (operands : List Expr)
  | typeArguments
  | other

namespace Part

/-- The characters of the marks among parts. -/
def marks (parts : List Part) : String :=
  String.ofList <| parts.filterMap fun
    | .token t => match t.kind with
      | .mark c => some c
      | _ => none
    | _ => none

/-- The operands among parts. -/
def operands (parts : List Part) : List Expr :=
  parts.filterMap fun
    | .operand e => some e
    | _ => none

/-- The operators among parts, each with the operand after it. -/
def applied : List Part → List (BinaryOp × Expr)
  | .operator op :: .operand e :: rest => (op, e) :: applied rest
  | _ :: rest => applied rest
  | [] => []

/-- The expression that a single token stands for. -/
def ofToken (t : Token) : Expr :=
  let text := (textOfGlyphs t.glyphs).getD ""
  match t.kind with
  | .int => .int text
  | .float => .float text
  | .rune => .rune text
  | .string => .string text
  | .word s =>
    if s = "true" then .truth true
    else if s = "false" then .truth false
    else if s = "iota" then .iota
    else if s = "nil" then .unsupported
    else .name s
  | _ => .unsupported

/-- A token applied to operands. -/
def ofCall (t : Token) (operands : List Expr) : Expr :=
  match t.kind, operands with
  | .word s, [e] => .conversion s e
  | _, _ => .unsupported

/-- An operand with what is applied to it. -/
def ofPrimary : List Part → Expr
  | [.token t] => ofToken t
  | [.operand e] => e
  | [.token t, .arguments es] => ofCall t es
  | [.token t, .typeArguments, .arguments es] => ofCall t es
  | _ => .unsupported

/-- What a labelled row of parts stands for. -/
def ofLabel (label : Label) (parts : List Part) : Part :=
  let first := (operands parts).head?.getD .unsupported
  match label with
  | .operator => .operator (.ofSymbol (marks parts))
  | .chain => .operand (.ofChain first (applied parts))
  | .unary => .operand (.unary (.ofSymbol (marks parts)) first)
  | .paren => .operand (.paren first)
  | .primary => .operand (ofPrimary parts)
  | .argument => .operand (if marks parts = "" then first else .unsupported)
  | .arguments => .arguments (operands parts)
  | .typeArguments => .typeArguments
  | _ => .other

end Part

namespace Tree

mutual

/-- The tokens of a tree. -/
def tokens : Tree → List Token
  | .leaf t => [t]
  | .node _ parts => tokensOfAll parts

/-- The tokens of several trees. -/
def tokensOfAll : List Tree → List Token
  | [] => []
  | t :: rest => t.tokens ++ tokensOfAll rest

end

mutual

/-- What a tree stands for. -/
def part : Tree → Part
  | .leaf t => .token t
  | .node label parts => .ofLabel label (partsOfAll parts)

/-- What several trees stand for. -/
def partsOfAll : List Tree → List Part
  | [] => []
  | t :: rest => t.part :: partsOfAll rest

end

/-- The expression that a tree stands for. -/
def expression (t : Tree) : Expr :=
  match rawText t.tokens, t.part with
  | none, _ => .notText
  | some _, .operand e => e
  | some _, _ => .unsupported

end Tree
end EnumHelpers.Source
