import EnumHelpers.Constant.Literal
import EnumHelpers.Constant.Expression
import EnumHelpers.Package.Constants
import EnumHelpers.Package.Types
import EnumHelpers.Symbol.Table

/-!
# Packages — values of constants

The value of a constant is that of its expression, in which other constants may be named.  A
value has a type when an operand gives it one: the left operand before the right, but only the
left one of a shift, and the type of a conversion in any case; a type in the declaration of the
constant goes before that.

A value that has been found is kept, and a constant whose value is being looked for must not be
met again.  A constant whose value is refused has none; any other failure stops the evaluation of
the package.
-/

namespace EnumHelpers

/-- A value with its type; none for a value without a type. -/
structure Typed where
  value : Constant
  type : Option String
  deriving DecidableEq, Repr

namespace Package

/-- The values found so far, and the constants whose values are being looked for. -/
structure Progress where
  found : OrderedMap String Typed := []
  inProgress : List String := []
  deriving DecidableEq, Repr

/-- A search for a value: it may fail, and what it found on its way stays found. -/
abbrev Search := ExceptT Constant.Failure (StateM Progress)

/-- A search that needs no progress. -/
def Search.of {α : Type} (outcome : Except Constant.Failure α) : Search α := ExceptT.mk (pure outcome)

/-- The type of the result of a binary operator. -/
def resultType (op : Constant.BinaryOp) (left right : Option String) : Option String :=
  if op = .shiftLeft ∨ op = .shiftRight then left else left.or right

/-- The value of an expression, the values of names coming from `lookup`. -/
def evaluate (types : Types) (lookup : String → Search Typed) (iota : Nat) : Expr → Search Typed
  | .int text => do
    let n ← .of (Constant.integerLiteral text)
    pure ⟨.whole n, none⟩
  | .float text => do
    let q ← .of (Constant.floatLiteral text)
    pure ⟨.ratio q, none⟩
  | .rune text => do
    let n ← .of (Constant.runeLiteral text)
    pure ⟨.whole n, none⟩
  | .string text => pure ⟨.text text, none⟩
  | .truth b => pure ⟨.truth b, none⟩
  | .iota => pure ⟨.whole iota, none⟩
  | .name s => lookup s
  | .paren e => evaluate types lookup iota e
  | .unary op e => do
    let operand ← evaluate types lookup iota e
    let value ← .of (Constant.applyUnary op operand.value (types.unsignedBits operand.type))
    pure ⟨value, operand.type⟩
  | .binary op l r => do
    let left ← evaluate types lookup iota l
    let right ← evaluate types lookup iota r
    let value ← .of (Constant.applyBinary op left.value right.value)
    pure ⟨value, resultType op left.type right.type⟩
  | .conversion type e =>
    if types.isType type then do
      let operand ← evaluate types lookup iota e
      pure ⟨operand.value.normalize, some type⟩
    else throw (.refused .outsideSubset)
  | .unsupported => throw (.refused .outsideSubset)
  | .notText => throw .notText

/-- The declaration that a name has; of several the last. -/
def declOf? (decls : List ConstantDecl) (name : String) : Option ConstantDecl :=
  decls.reverse.find? (·.name == name)

/-- The search for the value of a constant that is being looked for while it goes on. -/
def whileInProgress (name : String) (search : Search Typed) : Search Typed :=
  ExceptT.mk fun progress =>
    let (outcome, after) := search.run { progress with inProgress := name :: progress.inProgress }
    (outcome, { after with inProgress := after.inProgress.erase name })

/-- The search for the value of a constant. -/
def search (types : Types) (decls : List ConstantDecl) : Nat → String → Search Typed
  | 0, name => throw (.cycle name)
  | fuel + 1, name => do
    let progress ← get
    match OrderedMap.get? name progress.found with
    | some typed => pure typed
    | none =>
      match declOf? decls name with
      | none => throw (.refused (.notAConstant name))
      | some decl =>
        match decl.expression with
        | none => throw (.refused (.noExpression name))
        | some e =>
          if progress.inProgress.contains name then throw (.cycle name)
          else do
            let typed ← whileInProgress name (evaluate types (search types decls fuel) decl.iota e)
            let result : Typed := ⟨typed.value.normalize, decl.type.or typed.type⟩
            modify fun p => { p with found := OrderedMap.put name result p.found }
            pure result

/-- The search for the value of a constant of a package.  Every search within a search is for
another declared constant, so there are no more of them than declarations. -/
def searchFor (types : Types) (decls : List ConstantDecl) (name : String) : Search Typed :=
  search types decls (decls.length + 1) name

/-- The value and type recorded for a constant, whose search ended as given. -/
def recorded (decl : ConstantDecl) (outcome : Except Constant.Failure Typed) :
    Except Failure (Recorded × Option String) :=
  match outcome with
  | .ok typed => .ok (.exact typed.value, typed.type)
  | .error (.refused _) | .error (.cycle _) => .ok (.absent, decl.type)
  | .error cause => .error (.ofConstant cause)

/-- The values and types recorded for constants in order. -/
def recordAll (types : Types) (decls : List ConstantDecl) :
    Progress → List ConstantDecl → Except Failure (List (ConstantDecl × Recorded × Option String))
  | _, [] => .ok []
  | progress, decl :: rest => do
    let (outcome, after) := (searchFor types decls decl.name).run progress
    let here ← recorded decl outcome
    let more ← recordAll types decls after rest
    .ok ((decl, here) :: more)

end Package
end EnumHelpers
