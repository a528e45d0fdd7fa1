import EnumHelpers.Failure
import EnumHelpers.OrderedMap

/-!
# Enumerations — elements and lookup tables

An element is a resolved constant: its declared name, its exact integer and its string form.  An
`EnumSet` holds the elements of one type with four maps filled in their order, so that of several
elements with one value, or with one string form, the last one wins.  The first two maps give the
string form of a value and the value of a string form; the other two give the name of the element
that each of these entries comes from.

An element is shadowed when its value, shown and read back, is no longer its value.
-/

namespace EnumHelpers

/-- A resolved constant. -/
structure Element where
  name : String
  value : Int
  display : String
  deriving DecidableEq, Repr

/-- The elements of a type with their lookup tables. -/
structure EnumSet where
  typeName : String
  elements : List Element
  valueToString : OrderedMap Int String := []
  stringToValue : OrderedMap String Int := []
  valueOwner : OrderedMap Int String := []
  stringOwner : OrderedMap String String := []
  deriving Repr

namespace EnumSet

/-- The tables with an element entered into each. -/
def enter (s : EnumSet) (e : Element) : EnumSet :=
  { s with
    valueToString := OrderedMap.put e.value e.display s.valueToString
    stringToValue := OrderedMap.put e.display e.value s.stringToValue
    valueOwner := OrderedMap.put e.value e.name s.valueOwner
    stringOwner := OrderedMap.put e.display e.name s.stringOwner }

/-- The set of the elements of a type. -/
def ofElements (typeName : String) (elements : List Element) : EnumSet :=
  elements.foldl enter ⟨typeName, elements, [], [], [], []⟩

/-- The values in the order of the elements, repeated ones included. -/
def values (s : EnumSet) : List Int := s.elements.map (·.value)

/-- The string form of a value; one that no element has is shown with the name of the type. -/
def display (s : EnumSet) (v : Int) : Except Failure String :=
  match OrderedMap.get? v s.valueToString with
  | some text => .ok text
  | none => do
    let n ← (Number.integerText v).mapError Failure.number
    .ok (s.typeName ++ "(" ++ n ++ ")")

/-- The value of a string form. -/
def parse (s : EnumSet) (text : String) : Except Failure Int :=
  match OrderedMap.get? text s.stringToValue with
  | some v => .ok v
  | none => .error (.notAMember text s.typeName)

/-- Whether some element has the value. -/
def isValid (s : EnumSet) (v : Int) : Bool := OrderedMap.has v s.valueToString

/-- Whether the value of an element, shown and read back, is not its value. -/
def isShadowed (s : EnumSet) (e : Element) : Bool :=
  match OrderedMap.get? e.value s.valueToString with
  | some text => OrderedMap.get? text s.stringToValue != some e.value
  | none => true

/-- The shadowed elements. -/
def shadowed (s : EnumSet) : List Element := s.elements.filter s.isShadowed

end EnumSet
end EnumHelpers
