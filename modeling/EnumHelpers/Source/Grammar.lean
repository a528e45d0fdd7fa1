import EnumHelpers.Source.Pattern

/-!
# Source — the grammar

The grammar of source files.  Statements may stand at the top level of a file, beside
declarations.  In parentheses, brackets and the braces of literals line breaks mean nothing; in
blocks, groups of declarations, structures and interfaces they end what is complete.  A brace
after the head of a conditional, a loop or a switch opens its block, not a literal.
-/

namespace EnumHelpers.Source
open Pattern

/-! ### Contexts and lists -/

/-- A pattern between marks where line breaks mean nothing. -/
def enclosed (p : Pattern) : Pattern := .within ⟨false, true, false⟩ p

/-- A pattern that is a declaration of its own, or part of a group. -/
def declared (p : Pattern) : Pattern := .within ⟨true, true, false⟩ p

/-- A pattern in the head of a statement, before its block. -/
def inHead (p : Pattern) : Pattern := .within ⟨false, false, true⟩ p

/-- A value in the head of a statement, before its block. -/
def headValue (p : Pattern) : Pattern := .within ⟨false, false, false⟩ p

/-- The inside of a block. -/
def inBlock (p : Pattern) : Pattern := .within ⟨true, true, true⟩ p

/-- A list with commas. -/
def commaList (p : Pattern) : Pattern := .seq [p, .many (.joined (.seq [.mark ",", p]))]

/-- More items of a list with commas. -/
def moreItems (p : Pattern) : Pattern := .many (.seq [.mark ",", p])

/-- A list that may be empty and may end in a comma. -/
def looseList (p : Pattern) : Pattern := .seq [.opt (commaList p), .opt (.mark ",")]

/-- A list that may be empty, and otherwise may end in a comma. -/
def closedList (p : Pattern) : Pattern := .opt (.seq [commaList p, .opt (.mark ",")])

/-- A pattern in parentheses. -/
def parenthesized (p : Pattern) : Pattern := .seq [.mark "(", enclosed p, .mark ")"]

/-- A pattern in brackets. -/
def bracketed (p : Pattern) : Pattern := .seq [.mark "[", enclosed p, .mark "]"]

/-- A group of declarations in parentheses, each with a terminator. -/
def group (p : Pattern) : Pattern :=
  .seq [.mark "(", declared (.many (.seq [p, .terminator])), .mark ")"]

/-- Items with terminators between them. -/
def lines (p : Pattern) : Pattern :=
  .opt (.seq [p, .many (.seq [.terminator, p]), .opt .terminator])

/-! ### Declarations -/

/-- The package clause, an import, a function or a statement. -/
def topLevel : Pattern := .alt [
  .node .package (.seq [.word "package", .name]),
  .seq [.word "import", .alt [
    .seq [.mark "(", declared (lines (.rule .importSpec)), .mark ")"], .rule .importSpec]],
  .seq [.word "func", .name, .opt (.rule .typeParameters), .rule .functionTail],
  .seq [.word "func", .rule .parameters, .name, .rule .functionTail],
  .rule .statement]

/-- The names of a constant declaration with their values, if it gives any. -/
def constSpec : Pattern :=
  let values := Pattern.node .values (commaList (.rule .expression))
  .node .constSpec <| .seq [.node .names (commaList .name), .opt <| .alt [
    .seq [.joined (.mark "="), values],
    .seq [.joined (enclosed (.node .type (.rule .type))), .mark "=", values]]]

/-- The names of a variable declaration with a type, values or both. -/
def varSpec : Pattern :=
  let values := commaList (.rule .expression)
  .seq [commaList .name, .alt [
    .seq [.mark "=", values],
    .seq [.rule .type, .opt (.joined (.seq [.mark "=", values]))]]]

/-- The declaration of a type: of an alias, or of a type of its own. -/
def typeSpec : Pattern :=
  let target := Pattern.node .type (.rule .type)
  .alt [
    .node .alias (.seq [.name, .rule .typeParameters, .mark "=", target]),
    .node .alias (.seq [.name, .mark "=", target]),
    .node .typeSpec (.seq [.name, .rule .typeParameters, target]),
    .node .typeSpec (.seq [.name, target])]

/-- A declaration of constants, types or variables. -/
def declaration : Pattern := .alt [
  .node .constants
    (.seq [.word "const", .alt [group (.rule .constSpec), declared (.rule .constSpec)]]),
  .seq [.word "type", .alt [group (.rule .typeSpec), .rule .typeSpec]],
  .seq [.word "var", .alt [group (.rule .varSpec), declared (.rule .varSpec)]]]

/-! ### Types -/

/-- A parameter, with or without a name. -/
def parameter : Pattern := .alt [
  .seq [.mark "...", .rule .type],
  .seq [.name, .mark "...", .rule .type],
  .seq [.name, .rule .type],
  .rule .type]

/-- The name of a type, with its package and type arguments. -/
def typeName : Pattern :=
  .seq [.name, .opt (.joined (.seq [.mark ".", .name])), .opt (.joined (.rule .typeArguments))]

/-- A type. -/
def type : Pattern := .alt [
  .rule .typeName,
  .seq [.mark "*", .rule .type],
  parenthesized (.rule .type),
  .seq [.mark "[", enclosed (.opt (.rule .expression)), .mark "]", .rule .type],
  .seq [.word "map", bracketed (.rule .type), .rule .type],
  .seq [.word "chan", .opt (.mark "<-"), .rule .type],
  .seq [.mark "<-", .word "chan", .rule .type],
  .seq [.word "func", .rule .parameters, .opt (.joined (.rule .result))],
  .seq [.word "struct", .mark "\x7b", declared (lines (.rule .field)), .mark "\x7d"],
  .seq [.word "interface", .mark "\x7b", declared (lines (.rule .interfaceElement)),
    .mark "\x7d"],
  .seq [.mark "~", .rule .type]]

/-- A field of a structure: an embedded type, or names with a type. -/
def field : Pattern :=
  let tag := Pattern.opt (.joined (.literal .string))
  .alt [
    .seq [.opt (.mark "*"), .rule .typeName, tag, .before (.alt [.terminator, .mark "\x7d"])],
    .seq [.name, .alt [
      .seq [.joined (.mark ","), commaList .name, .rule .type], .joined (.rule .type)], tag]]

/-- A method or a union of types. -/
def interfaceElement : Pattern := .alt [
  .seq [.name, .joined (.rule .parameters), .opt (.joined (.rule .result))],
  .rule .typeElement]

/-! ### Statements -/

/-- What may follow the first expression of a simple statement. -/
def simpleTail : Pattern := .joined <| .alt [
  .mark "++",
  .mark "--",
  .seq [.mark "<-", .value (.rule .expression)],
  .seq [moreItems (.value (.rule .expression)), .alt [.mark ":=", .assignment],
    .value (commaList (.rule .expression))]]

/-- A statement. -/
def statement : Pattern :=
  let label := Pattern.opt (.joined .name)
  .alt [.rule .declaration, .node .other <| .alt [
    .seq [.word "return", .opt (.joined (.value (commaList (.rule .expression))))],
    .seq [.alt [.word "go", .word "defer"], .value (.rule .expression)],
    .rule .ifStatement,
    .seq [.word "for", .alt [
      .rule .block,
      .seq [.word "range", headValue (.rule .expression), .rule .block],
      .seq [inHead (.rule .forRest), .rule .block]]],
    .seq [.word "switch", inHead (.rule .switchHeader)],
    .seq [.word "select", .mark "\x7b", .many (.alt [
      .seq [.word "case", .within ⟨false, true, true⟩ (.seq [.rule .expression, .opt (.alt [
          .seq [.mark "<-", .value (.rule .expression)],
          .seq [moreItems (.rule .expression), .alt [.mark ":=", .mark "="],
            .value (.rule .expression)]])]),
        .mark ":", inBlock (.opt (.rule .statements))],
      .rule .defaultCase]), .mark "\x7d"],
    .seq [.name, .joined (.unless (.mark ":=")), .joined (.mark ":"), .alt [
      .rule .statement, .before (.alt [.mark "\x7d", .word "case", .word "default"])]],
    .word "fallthrough",
    .seq [.alt [.word "break", .word "continue"], label],
    .seq [.word "goto", .name],
    .rule .block,
    .mark ";",
    .rule .simpleStatement]]

/-- The rest of a loop head: a range, three parts or a condition. -/
def forRest : Pattern :=
  let parts := Pattern.seq [.mark ";", .opt (enclosed (.rule .expression)), .mark ";",
    .opt (.rule .simpleStatement)]
  .alt [parts, .seq [.rule .expression, .alt [
    .seq [moreItems (.rule .expression), .alt [.mark ":=", .mark "="], .word "range",
      headValue (.rule .expression)],
    .seq [.opt (.rule .simpleTail), parts],
    .seq []]]]

/-- The mark of a switch on the type of a value, and its cases. -/
def typeGuard : Pattern :=
  .seq [.mark ".", .mark "(", .word "type", .mark ")", .rule .typeCases]

/-- A switch after its first word. -/
def switchHeader : Pattern := .alt [.rule .valueCases, .seq [.rule .expression, .alt [
  typeGuard,
  .seq [moreItems (.rule .expression), .mark ":=", .value (.rule .expression), typeGuard],
  .seq [.opt (.rule .simpleTail), .mark ";", headValue (.rule .switchRest)],
  .rule .valueCases]]]

/-- A switch after its initializer. -/
def switchRest : Pattern := .alt [.rule .valueCases, .seq [.rule .expression, .alt [
  typeGuard,
  .seq [moreItems (.rule .expression), .mark ":=", .value (.rule .expression), typeGuard],
  .rule .valueCases]]]

/-- The cases of a switch on items of a kind. -/
def cases (item : Pattern) : Pattern :=
  .seq [.mark "\x7b", .many (.alt [
    .seq [.word "case", enclosed (commaList item), .mark ":", inBlock (.opt (.rule .statements))],
    .rule .defaultCase]), .mark "\x7d"]

/-! ### Expressions -/

/-- The two names that are applied to a type first. -/
def allocator : Pattern := .alt [.word "new", .word "make"]

/-- What an allocator is applied to. -/
def allocatorArguments : Pattern :=
  .node .arguments (parenthesized (.opt (.seq [
    .node .argument (.rule .type), moreItems (.node .argument (.rule .expression)),
    .opt (.mark ",")])))

/-- An operand with what is applied to it. -/
def primary : Pattern := .node .primary <| .alt [
  .seq [allocator, .joined allocatorArguments, .many (.joined (.rule .application))],
  .seq [.unless (.seq [allocator, .joined (.mark "(")]), .rule .operand,
    .many (.joined (.rule .application))]]

/-- An operand. -/
def operand : Pattern := .alt [
  .literal .int, .literal .float, .literal .imaginary, .literal .rune, .literal .string,
  .whereLiterals (.node .other (.seq [.rule .typeName, .joined (.rule .literalValue)])),
  .name,
  .node .other
    (.seq [.word "func", .rule .parameters, .opt (.rule .result), .rule .block]),
  .node .paren (parenthesized (.rule .expression)),
  .node .other (.seq [.mark "[", enclosed (.mark "..."), .mark "]", .rule .type,
    .rule .literalValue]),
  .node .other (.seq [
    .before (.alt [.mark "[", .word "map", .word "chan", .word "func", .word "struct",
      .word "interface"]),
    .rule .type, .alt [.rule .literalValue, .rule .conversion]]),
  .node .other (.seq [parenthesized (.rule .type), .rule .conversion])]

/-- What is applied to an operand. -/
def application : Pattern := .alt [
  .seq [.mark ".", .name],
  .seq [.mark ".", parenthesized (.rule .type)],
  .node .arguments (parenthesized (closedList
    (.node .argument (.seq [.rule .expression, .opt (.mark "...")])))),
  .node .typeArguments (.rule .typeArguments),
  bracketed (.rule .index)]

/-- An index, the bounds of a slice or type arguments. -/
def index : Pattern :=
  let item := Pattern.alt [.rule .expression, .rule .type]
  let bounds := Pattern.seq [.mark ":",
    .opt (.seq [.rule .expression, .opt (.seq [.mark ":", .rule .expression])])]
  .alt [bounds, .seq [item, .alt [bounds, .seq [moreItems item, .opt (.mark ",")]]]]

/-- An item of a literal, or a literal without its type. -/
def elementValue : Pattern := .alt [.rule .expression, .rule .literalValue]

/-! ### Rules -/

/-- The pattern of a rule. -/
def grammar : Rule → Pattern
  | .file => .seq [.many (.seq [.rule .topLevel, .terminator]), .finish]
  | .topLevel => topLevel
  | .importSpec => .seq [.opt (.alt [.mark ".", .name]), .literal .string]
  | .functionTail =>
    .seq [.rule .parameters, .opt (.joined (.rule .result)), .opt (.joined (.rule .block))]
  | .declaration => declaration
  | .constSpec => constSpec
  | .varSpec => varSpec
  | .typeSpec => typeSpec
  | .typeParameters => bracketed (.seq [
      commaList (.seq [commaList .name, .rule .typeElement]), .opt (.mark ",")])
  | .parameters => parenthesized (looseList (.rule .parameter))
  | .parameter => parameter
  | .result => .alt [.rule .parameters, .rule .type]
  | .type => type
  | .typeName => typeName
  | .typeArguments => bracketed (.seq [commaList (.rule .typeElement), .opt (.mark ",")])
  | .typeElement => .seq [.rule .type, .many (.joined (.seq [.mark "|", .rule .type]))]
  | .field => field
  | .interfaceElement => interfaceElement
  | .block =>
    .node .other (.seq [.mark "\x7b", inBlock (.opt (.rule .statements)), .mark "\x7d"])
  | .statements =>
    .seq [.rule .statement, .many (.seq [.terminator, .rule .statement]), .opt .terminator]
  | .statement => statement
  | .simpleStatement => .seq [.rule .expression, .opt (.rule .simpleTail)]
  | .simpleTail => simpleTail
  | .ifStatement => .seq [.word "if",
      inHead (.seq [.rule .expression, .opt (.seq [.opt (.rule .simpleTail), .mark ";",
        headValue (.rule .expression)])]),
      .rule .block,
      .opt (.joined (.seq [.word "else", .alt [.rule .ifStatement, .rule .block]]))]
  | .forRest => forRest
  | .switchHeader => switchHeader
  | .switchRest => switchRest
  | .valueCases => cases (.rule .expression)
  | .typeCases => cases (.rule .type)
  | .defaultCase => .seq [.word "default", .mark ":", inBlock (.opt (.rule .statements))]
  | .expression => .node .chain
      (.seq [.rule .unary, .many (.joined (.seq [.node .operator .operator, .rule .unary]))])
  | .unary => .alt [
      .node .unary (.seq [.alt [.mark "<-", .mark "+", .mark "-", .mark "!", .mark "^", .mark "*",
        .mark "&"], .rule .unary]),
      .rule .primary]
  | .primary => primary
  | .operand => operand
  | .application => application
  | .conversion => parenthesized (.seq [.rule .expression, .opt (.mark ",")])
  | .literalValue => .seq [.mark "\x7b", enclosed (looseList (.rule .element)), .mark "\x7d"]
  | .element => .seq [elementValue, .opt (.seq [.mark ":", elementValue])]
  | .index => index

/-- The trees of a source file, when it has no syntax error.  Between two tokens fewer than 256
patterns are entered in one another. -/
def treesOf (ts : List Token) : Option (List Tree) :=
  (Pattern.run grammar (256 * (ts.length + 1)) ⟨true, true, true⟩ (.rule .file) ts).map Prod.fst

end EnumHelpers.Source
