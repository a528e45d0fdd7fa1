import EnumHelpers.Number.Binary64
import EnumHelpers.OrderedMap

/-!
# JSON — values

A JSON document: objects keep the order of their keys, and integers are kept apart from numbers
written with a point or an exponent.  Two values may be equal across kinds, as `1`, `1.0` and
`true` are, and only some pairs of values are ordered.
-/

namespace EnumHelpers

/-- A JSON value. -/
inductive Json where
  | null
  | bool (b : Bool)
  | int (n : Int)
  | float (x : Number.Binary64)
  | str (s : String)
  | arr (items : List Json)
  | obj (fields : List (String × Json))

namespace Json

/-- The value of a field, `null` when it is absent. -/
def field (key : String) (fields : OrderedMap String Json) : Json :=
  (OrderedMap.get? key fields).getD .null

/-- Whether a number is zero. -/
def floatIsZero : Number.Binary64 → Bool
  | .finite _ m _ => m == 0
  | _ => false

/-- Whether a value counts as given: not null, false, zero or empty. -/
def isGiven : Json → Bool
  | .null => false
  | .bool b => b
  | .int n => n != 0
  | .float x => !floatIsZero x
  | .str s => s != ""
  | .arr items => !items.isEmpty
  | .obj fields => !fields.isEmpty

/-- The value of a number or a truth value on the line of numbers. -/
inductive Measure where
  | exact (q : Rat)
  | infinite (negative : Bool)
  | unordered
  deriving DecidableEq

/-- The measure of a double-precision number. -/
def measureFloat (x : Number.Binary64) : Measure :=
  match x with
  | .notANumber => .unordered
  | .infinite negative => .infinite negative
  | .finite .. => match x.toRat? with
    | some q => .exact q
    | none => .unordered

/-- The measure of a value, when it is a number or a truth value. -/
def measure? : Json → Option Measure
  | .bool b => some (.exact (if b then 1 else 0))
  | .int n => some (.exact n)
  | .float x => some (measureFloat x)
  | _ => none

/-- Whether two measures are equal; what is unordered equals nothing. -/
def Measure.same : Measure → Measure → Bool
  | .exact p, .exact q => p == q
  | .infinite a, .infinite b => a == b
  | _, _ => false

/-- Whether the first measure lies below the second. -/
def Measure.below : Measure → Measure → Bool
  | .exact p, .exact q => p < q
  | .exact _, .infinite negative => !negative
  | .infinite negative, .exact _ => negative
  | .infinite a, .infinite b => a && !b
  | _, _ => false

mutual

/-- Whether two values are equal. -/
def same : Json → Json → Bool
  | .null, .null => true
  | .str a, .str b => a == b
  | .arr as, .arr bs => sameItems as bs
  | .obj as, .obj bs => as.length == bs.length && sameFields as bs
  | a, b =>
    match measure? a, measure? b with
    | some p, some q => p.same q
    | _, _ => false

/-- Whether two lists of values are equal, place by place. -/
def sameItems : List Json → List Json → Bool
  | [], [] => true
  | a :: as, b :: bs => same a b && sameItems as bs
  | _, _ => false

/-- Whether every field of the first list has an equal value in the second. -/
def sameFields : List (String × Json) → List (String × Json) → Bool
  | [], _ => true
  | (k, v) :: rest, bs => sameFieldIn k v bs && sameFields rest bs

/-- Whether the field `k` of a list has a value equal to `v`. -/
def sameFieldIn (k : String) (v : Json) : List (String × Json) → Bool
  | [] => false
  | (k', v') :: rest => if k' = k then same v v' else sameFieldIn k v rest

end

/-- Whether the first text comes before the second in code point order. -/
def textBefore (a b : String) : Bool := a < b

mutual

/-- Whether the first value comes before the second; none when the two are not ordered. -/
def before? : Json → Json → Option Bool
  | .str a, .str b => some (textBefore a b)
  | .arr as, .arr bs => beforeItems? as bs
  | a, b =>
    match measure? a, measure? b with
    | some p, some q => some (p.below q)
    | _, _ => none

/-- The order of two lists: that of the first places that differ, else of the lengths. -/
def beforeItems? : List Json → List Json → Option Bool
  | [], bs => some (!bs.isEmpty)
  | _ :: _, [] => some false
  | a :: as, b :: bs => if same a b then beforeItems? as bs else before? a b

end

/-- Whether a value may be a key of a table: lists and objects may not. -/
def isKey : Json → Bool
  | .arr _ => false
  | .obj _ => false
  | _ => true

end Json
end EnumHelpers
