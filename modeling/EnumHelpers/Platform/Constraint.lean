import EnumHelpers.Failure
import EnumHelpers.Platform.Target
import EnumHelpers.Text.Blank

/-!
# Platforms — build constraints

A source file may carry a constraint on the tags that are satisfied where it is built: a line in
its header, above all code, with tags joined by `||`, `&&`, `!` and parentheses, of which `!`
binds tightest and `||` loosest.
-/

namespace EnumHelpers

/-- A constraint on the tags that are satisfied. -/
inductive Constraint where
  | tag (name : String)
  | not (c : Constraint)
  | and (left right : Constraint)
  | or (left right : Constraint)
  deriving DecidableEq, Repr

namespace Constraint
open Text

/-- Whether a constraint holds where the given tags are satisfied. -/
def holds (tags : List String) : Constraint → Bool
  | .tag name => tags.contains name
  | .not c => !c.holds tags
  | .and left right => left.holds tags && right.holds tags
  | .or left right => left.holds tags || right.holds tags

/-- A token of a constraint. -/
inductive Token where
  | opening | closing | not | and | or
  | tag (name : String)
  deriving DecidableEq, Repr

/-- The text of a token. -/
def Token.text : Token → String
  | .opening => "("
  | .closing => ")"
  | .not => "!"
  | .and => "&&"
  | .or => "||"
  | .tag name => name

/-- Why a text is no constraint. -/
inductive Fault where
  | unexpectedCharacter (rest : String)
  | unexpectedToken (text : String)
  | unexpectedEnd
  | missingClosing
  deriving DecidableEq, Repr

/-- The wording of a fault. -/
def Fault.message : Fault → String
  | .unexpectedCharacter rest => "unexpected character at " ++ quoted rest
  | .unexpectedToken text => "unexpected token " ++ quoted text
  | .unexpectedEnd => "unexpected end of expression"
  | .missingClosing => "missing closing parenthesis"

/-- A character of a tag. -/
def isTagChar (c : Char) : Bool := isWordChar c || c == '.'

/-- The token at the front of a text without leading blanks, with its length. -/
def frontToken? : List Char → Option (Token × Nat)
  | '(' :: _ => some (.opening, 1)
  | ')' :: _ => some (.closing, 1)
  | '!' :: _ => some (.not, 1)
  | '&' :: '&' :: _ => some (.and, 2)
  | '|' :: '|' :: _ => some (.or, 2)
  | cs =>
    let name := cs.takeWhile isTagChar
    if name.isEmpty then none else some (.tag (String.ofList name), name.length)

/-- The tokens of a text that ends in no blank. -/
def tokensFrom : Nat → List Char → Except Fault (List Token)
  | _, [] => .ok []
  | 0, _ => .ok []
  | fuel + 1, cs =>
    let body := cs.dropWhile isBlank
    match frontToken? body with
    | some (token, length) => do
      let more ← tokensFrom fuel (body.drop length)
      .ok (token :: more)
    | none => .error (.unexpectedCharacter (String.ofList cs))

/-- The tokens of a text. -/
def tokens (text : String) : Except Fault (List Token) :=
  let cs := trimEndChars text.toList
  tokensFrom cs.length cs

mutual

/-- The constraint at the front of the tokens, with the tokens after it. -/
def takeOr : Nat → List Token → Except Fault (Constraint × List Token)
  | 0, _ => .error .unexpectedEnd
  | fuel + 1, ts => do
    let (left, rest) ← takeAnd fuel ts
    takeOrTail fuel left rest

/-- The constraint that `left` and the parts joined to it by `||` make. -/
def takeOrTail : Nat → Constraint → List Token → Except Fault (Constraint × List Token)
  | fuel + 1, left, .or :: rest => do
    let (right, rest) ← takeAnd fuel rest
    takeOrTail fuel (.or left right) rest
  | _, left, rest => .ok (left, rest)

/-- The constraint without `||` at the front of the tokens. -/
def takeAnd : Nat → List Token → Except Fault (Constraint × List Token)
  | 0, _ => .error .unexpectedEnd
  | fuel + 1, ts => do
    let (left, rest) ← takeUnary fuel ts
    takeAndTail fuel left rest

/-- The constraint that `left` and the parts joined to it by `&&` make. -/
def takeAndTail : Nat → Constraint → List Token → Except Fault (Constraint × List Token)
  | fuel + 1, left, .and :: rest => do
    let (right, rest) ← takeUnary fuel rest
    takeAndTail fuel (.and left right) rest
  | _, left, rest => .ok (left, rest)

/-- The tag, negation or parenthesis at the front of the tokens. -/
def takeUnary : Nat → List Token → Except Fault (Constraint × List Token)
  | 0, _ => .error .unexpectedEnd
  | _ + 1, [] => .error .unexpectedEnd
  | fuel + 1, .not :: rest => do
    let (c, rest) ← takeUnary fuel rest
    .ok (.not c, rest)
  | fuel + 1, .opening :: rest => do
    let (c, rest) ← takeOr fuel rest
    match rest with
    | .closing :: rest => .ok (c, rest)
    | _ :: _ => .error .missingClosing
    | [] => .error .unexpectedEnd
  | _ + 1, .tag name :: rest => .ok (.tag name, rest)
  | _ + 1, token :: _ => .error (.unexpectedToken token.text)

end

/-- The constraint that tokens make: between two tokens no more than four rules are entered. -/
def ofTokens (ts : List Token) : Except Fault Constraint := do
  let (c, rest) ← takeOr (4 * ts.length + 4) ts
  match rest with
  | [] => .ok c
  | token :: _ => .error (.unexpectedToken token.text)

/-- The constraint that a text spells. -/
def parse (text : String) : Except Fault Constraint := do
  let ts ← tokens text
  ofTokens ts

/-- The mark of a constraint line. -/
def lineMark : String := "//go:build"

/-- Whether a text holds another somewhere. -/
def holdsWithin (part : List Char) : List Char → Bool
  | [] => part.isEmpty
  | c :: rest => part.isPrefixOf (c :: rest) || holdsWithin part rest

/-- The constraint line among trimmed lines; `inBlock` says that a block comment is open. -/
def lineIn (inBlock : Bool) : List (List Char) → Option String
  | [] => none
  | line :: rest =>
    if inBlock then lineIn (!holdsWithin ['*', '/'] line) rest
    else if line.isEmpty then lineIn false rest
    else if lineMark.toList.isPrefixOf line then
      some (String.ofList (trimChars (line.drop lineMark.toList.length)))
    else if ['/', '/'].isPrefixOf line then lineIn false rest
    else if ['/', '*'].isPrefixOf line then
      lineIn (!holdsWithin ['*', '/'] (line.drop 2)) rest
    else none

/-- The constraint line in the header of a source text: only comments and empty lines stand
above it. -/
def lineOf (source : String) : Option String :=
  lineIn false ((lines source).map fun line => trimChars line.toList)

end Constraint

namespace Target

/-- Whether the constraint of a source file, if it has one, holds at the target. -/
def matchesSource (t : Target) (unit source : String) : Except Failure Bool :=
  match Constraint.lineOf source with
  | none => .ok true
  | some line =>
    match Constraint.parse line with
    | .ok c => .ok (c.holds t.tags)
    | .error fault => .error (.resolution (.badConstraint unit fault.message))

end Target
end EnumHelpers
