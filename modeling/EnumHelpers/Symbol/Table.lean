import EnumHelpers.Failure

/-!
# Symbol tables — types and constants of a package

A symbol table lists the named types of a package and its constants with their exact values.  It
may come from source or from a document, and a document may hold anything in the place of a name,
so names are JSON values here; those that come from source are texts.

A type may be an alias of another: `canonical` follows aliases down to the type they stand for,
and stops at an alias that has been met before.  The constants of a table are in the order of
their units, and within a unit in the order of their declarations: `ordered`.
-/

namespace EnumHelpers

/-- The value recorded for a constant. -/
inductive Recorded where
  | absent
  | exact (c : Constant)
  /-- A value of a document that no constant has. -/
  | other (v : Json)

/-- The value that a document records. -/
def Recorded.ofJson : Json → Recorded
  | .null => .absent
  | .bool b => .exact (.truth b)
  | .int n => .exact (.whole n)
  | .str s => .exact (.text s)
  | v => .other v

/-- A named type; `aliasOf` is null unless the type is an alias. -/
structure TypeHandle where
  name : Json
  aliasOf : Json := .null

/-- A constant declaration; `type` is null for a constant without a type. -/
structure ConstantRecord where
  name : Json
  type : Json
  value : Recorded
  unit : Json
  order : Json
  comment : Json

/-- The types and constants of a package. -/
structure SymbolTable where
  package : Json
  types : List TypeHandle
  constants : List ConstantRecord

namespace SymbolTable

/-- Whether a value is null. -/
def isNull : Json → Bool
  | .null => true
  | _ => false

/-- The last of the handles with a name. -/
def handleIn? (name : Json) : List TypeHandle → Option TypeHandle
  | [] => none
  | h :: rest => (handleIn? name rest).or (if h.name.same name then some h else none)

/-- The handle of a named type; a type that is named twice has the later one. -/
def handle? (t : SymbolTable) (name : Json) : Option TypeHandle :=
  handleIn? name t.types

/-- The handle of a named type that must be there. -/
def lookup (t : SymbolTable) (name : String) : Except Failure TypeHandle :=
  match t.handle? (.str name) with
  | some h => .ok h
  | none => do
    let package ← Failure.plain t.package
    .error (.typeNotFound name package)

/-- The type that a name stands for, when the aliases in `seen` have been followed. -/
def canonicalFrom (t : SymbolTable) : Nat → List Json → Json → Except Failure Json
  | 0, _, name => .ok name
  | fuel + 1, seen, name =>
    if isNull name then .ok name
    else if !name.isKey then .error .wrongKind
    else
      match t.handle? name with
      | none => .ok name
      | some h =>
        if isNull h.aliasOf || seen.any (·.same name) then .ok name
        else canonicalFrom t fuel (name :: seen) h.aliasOf

/-- The type that a name stands for.  Every step follows an alias that was not met before, so
there are no more steps than types. -/
def canonical (t : SymbolTable) (name : Json) : Except Failure Json :=
  t.canonicalFrom (t.types.length + 1) [] name

/-- Whether the first record comes before the second; none when they are not ordered. -/
def recordBefore? (a b : ConstantRecord) : Option Bool :=
  if !a.unit.same b.unit then a.unit.before? b.unit
  else if !a.order.same b.order then a.order.before? b.order
  else some false

/-- Whether two records can be put in order. -/
def comparable (a b : ConstantRecord) : Bool :=
  (recordBefore? a b).isSome

/-- Whether any two records can be put in order. -/
def allComparable : List ConstantRecord → Bool
  | [] => true
  | r :: rest => rest.all (comparable r) && allComparable rest

/-- Whether the first record may stand before the second. -/
def mayPrecede (a b : ConstantRecord) : Bool :=
  recordBefore? b a != some true

/-- The constants in the order of their units and declarations; those that are equal in both
keep the order of the table. -/
def ordered (t : SymbolTable) : Except Failure (List ConstantRecord) :=
  if allComparable t.constants then .ok (t.constants.mergeSort mayPrecede)
  else .error .wrongKind

end SymbolTable
end EnumHelpers
