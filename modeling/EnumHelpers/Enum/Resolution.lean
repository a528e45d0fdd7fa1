import EnumHelpers.Enum.Display
import EnumHelpers.Enum.Element
import EnumHelpers.Symbol.Integer

/-!
# Enumerations — resolution

The constants of a type, in the order of the table: those whose type stands for the same type as
the one asked for.  A type that is not declared, or that no constant has, is refused, and so is a
name that two of the constants share.
-/

namespace EnumHelpers.Enum
open SymbolTable

/-- What is asked of a type. -/
structure Request where
  name : String
  trimPrefix : String := ""
  useLineComment : Bool := false

/-- A resolved constant, named as the table names it. -/
structure Member where
  name : Json
  value : Int
  display : Json

/-- Whether a record has a type that stands for `target`. -/
def hasType (t : SymbolTable) (target : Json) (r : ConstantRecord) : Except Failure Bool :=
  if isNull r.type then .ok false
  else do
    let owner ← t.canonical r.type
    .ok (owner.same target)

/-- The records with a type that stands for `target`. -/
def recordsOf (t : SymbolTable) (target : Json) :
    List ConstantRecord → Except Failure (List ConstantRecord)
  | [] => .ok []
  | r :: rest => do
    let keep ← hasType t target r
    let more ← recordsOf t target rest
    .ok (if keep then r :: more else more)

/-- The constants of a type. -/
def constants (t : SymbolTable) (typeName : String) : Except Failure (List ConstantRecord) := do
  let _ ← t.lookup typeName
  let target ← t.canonical (.str typeName)
  let all ← t.ordered
  let found ← recordsOf t target all
  if found.isEmpty then .error (.noConstants typeName) else .ok found

/-- The declared name of a record without the prefix of the request. -/
def trimmedName (request : Request) (name : Json) : Except Failure Json :=
  if request.trimPrefix = "" then .ok name
  else match name with
    | .str s => .ok (.str (dropPrefix request.trimPrefix s))
    | _ => .error .noSuchOperation

/-- The string form of a record. -/
def displayOf (request : Request) (r : ConstantRecord) : Except Failure Json := do
  let name ← trimmedName request r.name
  if request.useLineComment && r.comment.isGiven then
    match r.comment with
    | .str s => .ok (if Text.trim s = "" then name else .str (Text.trim s))
    | _ => .error .noSuchOperation
  else .ok name

/-- The member that a record gives, when none of the names in `seen` is its own. -/
def memberOf (request : Request) (seen : List Json) (r : ConstantRecord) :
    Except Failure Member := do
  if !r.name.isKey then .error .wrongKind
  else if seen.any (·.same r.name) then
    let name ← Failure.plain r.name
    .error (.resolution (.declaredTwice name request.name))
  else
    let value ← r.value.integer r.name
    let text ← displayOf request r
    .ok ⟨r.name, value, text⟩

/-- The members that records give, after those with the names in `seen`. -/
def membersFrom (request : Request) (seen : List Json) :
    List ConstantRecord → Except Failure (List Member)
  | [] => .ok []
  | r :: rest => do
    let m ← memberOf request seen r
    let more ← membersFrom request (r.name :: seen) rest
    .ok (m :: more)

/-- The members of a type. -/
def resolve (t : SymbolTable) (request : Request) : Except Failure (List Member) := do
  let records ← constants t request.name
  membersFrom request [] records

/-- The element that a member is, when it has a text for a name. -/
def Member.element? (m : Member) : Option Element :=
  match m.name, m.display with
  | .str name, .str text => some ⟨name, m.value, text⟩
  | _, _ => none

/-- The elements that members are; a name that is no text is of the wrong kind. -/
def elementsOf (members : List Member) : Except Failure (List Element) :=
  match members.mapM Member.element? with
  | some elements => .ok elements
  | none => .error .wrongKind

end EnumHelpers.Enum
