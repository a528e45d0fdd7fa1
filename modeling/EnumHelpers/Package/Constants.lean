import EnumHelpers.Enum.Display
import EnumHelpers.Failure
import EnumHelpers.Source.File

/-!
# Packages — declared constants

The constants that a file declares, in order, before they have values.  A declaration without
values repeats the type and the expressions of the nearest one before it in its group; the number
of a declaration in its group is what `iota` stands for.  The blank name is counted in the order
of a file but declares no constant.

A comment belongs to a declaration when it begins on the row on which the declaration ends, at or
after its end; the first such comment counts.
-/

namespace EnumHelpers.Package
open Source Text

/-- A constant as it is declared. -/
structure ConstantDecl where
  name : String
  /-- The expression of its value; none when its declaration gives too few. -/
  expression : Option Expr
  type : Option String
  iota : Nat
  unit : String
  /-- The number of names before it in its file. -/
  order : Nat
  comment : Option String
  deriving DecidableEq, Repr

/-- A comment's place and text. -/
abbrev Note := Position × String

/-- The comments of a file as text, without their markers. -/
def notesOf (comments : List Comment) : Except Failure (List Note) :=
  comments.mapM fun c =>
    match textOfGlyphs c.glyphs with
    | some text => .ok (c.start, Enum.commentText text)
    | none => .error .notText

/-- The comment that belongs to a declaration that ends at a place. -/
def trailing? (notes : List Note) (stop : Position) : Option String :=
  (notes.find? fun (start, _) => start.row == stop.row && stop.column ≤ start.column).map Prod.snd

/-- The type and expressions in force in a group. -/
structure InForce where
  type : Option String := none
  expressions : List Expr := []

/-- The type and expressions in force at a declaration. -/
def InForce.at (before : InForce) (spec : ConstSpec) : Except Failure InForce :=
  match spec.given with
  | none => .ok before
  | some ⟨none, expressions⟩ => .ok ⟨none, expressions⟩
  | some ⟨some (some type), expressions⟩ => .ok ⟨some type, expressions⟩
  | some ⟨some none, _⟩ => .error .notText

/-- The constants that the names of one declaration declare, the first of them at the given
position among its names. -/
def ofNames (unit : String) (inForce : InForce) (iota : Nat) (comment : Option String) :
    Nat → Nat → List String → List ConstantDecl
  | _, _, [] => []
  | position, order, name :: rest =>
    let more := ofNames unit inForce iota comment (position + 1) (order + 1) rest
    if name = "_" then more
    else ⟨name, inForce.expressions[position]?, inForce.type, iota, unit, order, comment⟩ :: more

/-- The constants of a group from its declaration with number `iota` on. -/
def ofGroup (unit : String) (notes : List Note) :
    InForce → Nat → Nat → List ConstSpec → Except Failure (List ConstantDecl)
  | _, _, _, [] => .ok []
  | before, iota, order, spec :: rest => do
    let inForce ← before.at spec
    let here := ofNames unit inForce iota (trailing? notes spec.stop) 0 order spec.names
    let more ← ofGroup unit notes inForce (iota + 1) (order + spec.names.length) rest
    .ok (here ++ more)

/-- The number of names that a group declares. -/
def nameCount : List ConstSpec → Nat
  | [] => 0
  | spec :: rest => spec.names.length + nameCount rest

/-- The constants of the groups of a file, `order` names standing before them. -/
def ofGroups (unit : String) (notes : List Note) :
    Nat → List (List ConstSpec) → Except Failure (List ConstantDecl)
  | _, [] => .ok []
  | order, group :: rest => do
    let here ← ofGroup unit notes {} 0 order group
    let more ← ofGroups unit notes (order + nameCount group) rest
    .ok (here ++ more)

/-- The constants that a file declares. -/
def ofFile (unit : String) (file : SourceFile) : Except Failure (List ConstantDecl) := do
  let notes ← notesOf file.comments
  ofGroups unit notes 0 file.constants

/-- The constants that files declare, each file with the name of its unit. -/
def constantsOf (files : List (String × SourceFile)) : Except Failure (List ConstantDecl) := do
  let lists ← files.mapM fun (unit, file) => ofFile unit file
  .ok lists.flatten

end EnumHelpers.Package
