import EnumHelpers.Source.Token

/-!
# Source — patterns

A grammar as data: a pattern says which rows of tokens it takes, and `Pattern.run` takes the
first that fits from the front of a row and gives its tree.  Alternatives are tried in their
order, and the first that fits is kept.

Whether a line break ends a construct depends on where it stands.  A pattern under `joined` goes
on a construct that could end before it; in a context where lines end constructs it takes nothing
from a new line.
-/

namespace EnumHelpers.Source

/-- The kinds of pieces that a tree tells apart. -/
inductive Label where
  | package | constants | constSpec | names | type | values
  | typeSpec | alias
  | chain | operator | unary | primary | paren | arguments | argument | typeArguments
  | other
  deriving DecidableEq, Repr

/-- The tree of a piece of source. -/
inductive Tree where
  | leaf (t : Token)
  | node (label : Label) (parts : List Tree)

/-- What a construct stands in. -/
structure Context where
  /-- A line break ends a construct that is complete. -/
  lineEnds : Bool
  /-- A brace after the name of a type opens a literal. -/
  literals : Bool
  /-- The marks of steps and of sending are statements, not operators. -/
  steps : Bool
  deriving DecidableEq, Repr

/-- The rules of the grammar. -/
inductive Rule where
  | file | topLevel | importSpec | functionTail
  | declaration | constSpec | varSpec | typeSpec | typeParameters | parameters | parameter | result
  | type | typeName | typeArguments | typeElement | field | interfaceElement
  | block | statements | statement | simpleStatement | simpleTail | ifStatement | forRest
  | switchHeader | switchRest | valueCases | typeCases | defaultCase
  | expression | unary | primary | operand | application | conversion
  | literalValue | element | index
  deriving DecidableEq, Repr

/-- A pattern of tokens. -/
inductive Pattern where
  /-- A word that is not reserved. -/
  | name
  | word (s : String)
  /-- A literal of a kind. -/
  | literal (kind : TokenKind)
  /-- Punctuation, its characters without gaps. -/
  | mark (s : String)
  /-- A binary operator. -/
  | operator
  /-- An operator that assigns. -/
  | assignment
  /-- The end of a line, a semicolon or the end of the file. -/
  | terminator
  | finish
  | seq (ps : List Pattern)
  | alt (ps : List Pattern)
  | opt (p : Pattern)
  | many (p : Pattern)
  | rule (r : Rule)
  | node (label : Label) (p : Pattern)
  /-- The pattern in another context. -/
  | within (c : Context) (p : Pattern)
  /-- The pattern where a value is assigned. -/
  | value (p : Pattern)
  /-- The pattern where literals of named types may stand. -/
  | whereLiterals (p : Pattern)
  /-- The pattern as the continuation of a construct that is complete. -/
  | joined (p : Pattern)
  /-- Nothing, where the pattern comes next. -/
  | before (p : Pattern)
  /-- Nothing, where the pattern does not come next. -/
  | unless (p : Pattern)

/-! ### Single tokens -/

/-- The tokens of the characters of a mark, without gaps, with the tokens after them. -/
def takeGlued : List Char → List Token → Option (List Token × List Token)
  | [], ts => some ([], ts)
  | c :: cs, t :: ts =>
    if t.kind = .mark c ∧ t.gap.isEmpty then
      (takeGlued cs ts).map fun (taken, rest) => (t :: taken, rest)
    else none
  | _ :: _, [] => none

/-- The tokens of a mark, with the tokens after them. -/
def takeMark (s : String) (ts : List Token) : Option (List Token × List Token) :=
  match s.toList, ts with
  | c :: cs, t :: ts =>
    if t.kind = .mark c then (takeGlued cs ts).map fun (taken, rest) => (t :: taken, rest) else none
  | _, _ => none

/-- Whether a row of tokens begins with a mark. -/
def beginsWith (s : String) (ts : List Token) : Bool := (takeMark s ts).isSome

/-- The binary operators, each before those it begins with. -/
def binaryOperators : List String := [
  "&^", "<<", ">>", "==", "!=", "<=", ">=", "&&", "||", "*", "/", "%", "&", "+", "-", "|", "^",
  "<", ">"]

/-- The operators that assign. -/
def assignmentOperators : List String := [
  "<<=", ">>=", "&^=", "*=", "/=", "%=", "&=", "+=", "-=", "|=", "^=", "="]

/-- The binary operator at the front of a row of tokens: the longest mark that may stand there. -/
def takeOperator (c : Context) (ts : List Token) : Option (List Token × List Token) :=
  if c.steps && ["++", "--", "<-"].any (beginsWith · ts) then none
  else
    match binaryOperators.find? (beginsWith · ts) with
    | some s => if assignmentOperators.contains (s ++ "=") && beginsWith (s ++ "=") ts then none
      else takeMark s ts
    | none => none

/-- The assigning operator at the front of a row of tokens. -/
def takeAssignment (ts : List Token) : Option (List Token × List Token) :=
  match assignmentOperators.find? (beginsWith · ts) with
  | some s => takeMark s ts
  | none => none

/-- A row of tokens with the line break before it passed over. -/
def onNewLine : List Token → List Token
  | [] => []
  | t :: ts => { t with lineBefore := false } :: ts

/-- The tokens after a terminator. -/
def takeTerminator (ts : List Token) : Option (List Token) :=
  match ts with
  | [] => some []
  | t :: rest =>
    if t.lineBefore then some (onNewLine ts)
    else if t.kind = .mark ';' ∨ t.kind = .mark '\x00' then some rest
    else if t.kind = .finish then some ts
    else none

/-- Whether a row of tokens stands on a new line that ends what is before it. -/
def isCutOff (c : Context) (ts : List Token) : Bool :=
  c.lineEnds && match ts with
    | t :: _ => t.lineBefore
    | [] => false

/-! ### Running -/

/-- What a pattern gives: trees, and the tokens after what it took. -/
abbrev Taken := Option (List Tree × List Token)

/-- Tokens as leaves. -/
def leaves (taken : Option (List Token × List Token)) : Taken :=
  taken.map fun (ts, rest) => (ts.map Tree.leaf, rest)

/-- The first token as a leaf, when it passes a test. -/
def takeOne (test : Token → Bool) : List Token → Taken
  | t :: rest => if test t then some ([.leaf t], rest) else none
  | [] => none

/-- Whether a token is a word that is not reserved. -/
def isName (t : Token) : Bool :=
  match t.kind with
  | .word s => !reservedWords.contains s
  | _ => false

namespace Pattern

mutual

/-- What a pattern of the grammar takes from the front of a row of tokens, when no more than
`fuel` patterns are entered in one another. -/
def run (grammar : Rule → Pattern) : Nat → Context → Pattern → List Token → Taken
  | 0, _, _, _ => none
  | fuel + 1, c, p, ts =>
    match p with
    | .name => takeOne isName ts
    | .word s => takeOne (fun t => t.kind == .word s) ts
    | .literal kind => takeOne (fun t => t.kind == kind) ts
    | .finish => takeOne (fun t => t.kind == .finish) ts
    | .mark s => leaves (takeMark s ts)
    | .operator => leaves (takeOperator c ts)
    | .assignment => leaves (takeAssignment ts)
    | .terminator => (takeTerminator ts).map fun rest => ([], rest)
    | .seq ps => runAll grammar fuel c ps ts
    | .alt ps => runFirst grammar fuel c ps ts
    | .opt p => (run grammar fuel c p ts).or (some ([], ts))
    | .many p =>
      match run grammar fuel c p ts with
      | some (first, rest) =>
        (run grammar fuel c (.many p) rest).map fun (more, rest) => (first ++ more, rest)
      | none => some ([], ts)
    | .rule r => run grammar fuel c (grammar r) ts
    | .node label p =>
      (run grammar fuel c p ts).map fun (parts, rest) => ([.node label parts], rest)
    | .within c p => run grammar fuel c p ts
    | .value p => run grammar fuel { c with literals := true, steps := false } p ts
    | .whereLiterals p => if c.literals then run grammar fuel c p ts else none
    | .joined p => if isCutOff c ts then none else run grammar fuel c p ts
    | .before p => (run grammar fuel c p ts).map fun _ => ([], ts)
    | .unless p => if (run grammar fuel c p ts).isSome then none else some ([], ts)

/-- What several patterns take, one after another. -/
def runAll (grammar : Rule → Pattern) : Nat → Context → List Pattern → List Token → Taken
  | 0, _, _, _ => none
  | _ + 1, _, [], ts => some ([], ts)
  | fuel + 1, c, p :: ps, ts =>
    match run grammar fuel c p ts with
    | some (first, rest) =>
      (runAll grammar fuel c ps rest).map fun (more, rest) => (first ++ more, rest)
    | none => none

/-- What the first of several patterns that fits takes. -/
def runFirst (grammar : Rule → Pattern) : Nat → Context → List Pattern → List Token → Taken
  | 0, _, _, _ => none
  | _ + 1, _, [], _ => none
  | fuel + 1, c, p :: ps, ts =>
    match run grammar fuel c p ts with
    | some taken => some taken
    | none => runFirst grammar fuel c ps ts

end

end Pattern
end EnumHelpers.Source
