import EnumHelpers.Source.Grammar
import EnumHelpers.Source.Lexer
import EnumHelpers.Source.Reading

/-!
# Source — files

What a source file says of a package: the name in its package clause, the types and the groups of
constants that it declares at the top level, and its comments.  `SourceFile.parse` gives nothing
for a file with a syntax error.
-/

namespace EnumHelpers.Source

/-- The text of a piece of source; none when it holds bytes that are no text. -/
abbrev RawText := Option String

/-- The declaration of a type. -/
structure TypeSpec where
  name : String
  /-- Whether the type is another name for its target, not a type of its own. -/
  isAlias : Bool
  target : RawText
  deriving DecidableEq, Repr

/-- The type and the expressions that a constant declaration gives. -/
structure ConstValues where
  type : Option RawText
  expressions : List Expr
  deriving DecidableEq, Repr

/-- The declaration of one or more constants. -/
structure ConstSpec where
  names : List String
  /-- What the declaration gives; none when it repeats the one before it. -/
  given : Option ConstValues
  /-- The place after the last token of the declaration. -/
  stop : Position
  deriving DecidableEq, Repr

/-- What a source file says of its package. -/
structure SourceFile where
  /-- The name in the package clause, when there is one. -/
  package : Option String
  types : List TypeSpec
  /-- The groups of constant declarations; a declaration outside a group is one of its own. -/
  constants : List (List ConstSpec)
  comments : List Comment
  deriving DecidableEq, Repr

/-! ### Reading trees -/

/-- The parts of the first tree with a label. -/
def partsOf? (label : Label) : List Tree → Option (List Tree)
  | [] => none
  | .node l parts :: rest => if l = label then some parts else partsOf? label rest
  | .leaf _ :: rest => partsOf? label rest

/-- The parts of all trees with a label. -/
def allPartsOf (label : Label) (trees : List Tree) : List (List Tree) :=
  trees.filterMap fun
    | .node l parts => if l = label then some parts else none
    | .leaf _ => none

/-- The names among trees. -/
def namesOf (trees : List Tree) : List String :=
  trees.filterMap fun
    | .leaf t => match t.kind with
      | .word s => if reservedWords.contains s then none else some s
      | _ => none
    | .node .. => none

/-- The text of the tree with a label. -/
def rawTextOf? (label : Label) (trees : List Tree) : Option RawText :=
  (partsOf? label trees).map fun parts => rawText (Tree.tokensOfAll parts)

/-- The declaration of a type from its parts. -/
def typeSpecOf (isAlias : Bool) (parts : List Tree) : TypeSpec :=
  ⟨(namesOf parts).head?.getD "", isAlias, (rawTextOf? .type parts).join⟩

/-- The type declarations among trees. -/
def typesOf (trees : List Tree) : List TypeSpec :=
  trees.filterMap fun
    | .node .typeSpec parts => some (typeSpecOf false parts)
    | .node .alias parts => some (typeSpecOf true parts)
    | _ => none

/-- The expressions among trees. -/
def expressionsOf (trees : List Tree) : List Expr :=
  trees.filterMap fun
    | .node label parts => some (Tree.node label parts).expression
    | .leaf _ => none

/-- The place after the last of a row of tokens. -/
def stopOf (ts : List Token) : Position := (ts.getLast?.map (·.stop)).getD ⟨0, 0⟩

/-- The declaration of constants from its parts. -/
def constSpecOf (parts : List Tree) : ConstSpec where
  names := namesOf ((partsOf? .names parts).getD [])
  given := (partsOf? .values parts).map fun values =>
    ⟨rawTextOf? .type parts, expressionsOf values⟩
  stop := stopOf (Tree.tokensOfAll parts)

/-- What the trees of a file say. -/
def fileOf (trees : List Tree) (comments : List Comment) : SourceFile where
  package := (partsOf? .package trees).bind fun parts => (namesOf parts).head?
  types := typesOf trees
  constants := (allPartsOf .constants trees).map fun parts =>
    (allPartsOf .constSpec parts).map constSpecOf
  comments := comments

/-- What a source file says, when it has no syntax error. -/
def SourceFile.parse (content : List Text.Glyph) : Option SourceFile :=
  let (tokens, comments) := scan content
  (treesOf tokens).map fun trees => fileOf trees comments

end EnumHelpers.Source
