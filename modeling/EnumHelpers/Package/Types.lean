import EnumHelpers.Failure
import EnumHelpers.OrderedMap
import EnumHelpers.Source.File

/-!
# Packages — declared types

The types that the files of a package declare.  A name that is declared again has its later
declaration, in the place of the first.  An alias leads to its target and a type of its own to
the type it is made of, so that the size of an unsigned type can be found through any chain of
declarations; a chain that comes back to a name has none.
-/

namespace EnumHelpers.Package
open Source

/-- The declared types of a package. -/
structure Types where
  /-- The declared names, each with its target when it is an alias. -/
  aliases : OrderedMap String (Option String) := []
  /-- The types that those of their own are made of. -/
  underlying : OrderedMap String String := []
  deriving DecidableEq, Repr

/-- The types that need no declaration. -/
def predeclaredTypes : List String := [
  "bool", "byte", "complex64", "complex128", "float32", "float64", "int", "int8", "int16",
  "int32", "int64", "rune", "string", "uint", "uint8", "uint16", "uint32", "uint64", "uintptr"]

/-- The sizes of the unsigned types, in bits. -/
def unsignedSizes : List (String × Nat) := [
  ("uint8", 8), ("byte", 8), ("uint16", 16), ("uint32", 32), ("uint64", 64), ("uint", 64),
  ("uintptr", 64)]

namespace Types

/-- The types with one more declaration, whose target is given as text. -/
def declare (types : Types) (name : String) (isAlias : Bool) (target : String) : Types :=
  if isAlias then { types with aliases := OrderedMap.put name (some target) types.aliases }
  else {
    aliases := OrderedMap.put name none types.aliases
    underlying := OrderedMap.put name target types.underlying }

/-- The types with one more declaration, whose target has to be text. -/
def enter (types : Types) (spec : TypeSpec) : Except Failure Types :=
  match spec.target with
  | some target => .ok (types.declare spec.name spec.isAlias target)
  | none => .error .notText

/-- The types that files declare. -/
def ofFiles (files : List SourceFile) : Except Failure Types :=
  (files.flatMap (·.types)).foldlM enter {}

/-- Whether a name denotes a type. -/
def isType (types : Types) (name : String) : Bool :=
  OrderedMap.has name types.aliases || predeclaredTypes.contains name

/-- The type that a declared type leads to: the target of an alias, else what it is made of. -/
def next? (types : Types) (name : String) : Option String :=
  match OrderedMap.get? name types.aliases with
  | none => none
  | some (some target) => some target
  | some none => OrderedMap.get? name types.underlying

/-- The size of the unsigned type that a type leads to, when the names in `seen` have been
passed. -/
def unsignedFrom (types : Types) : Nat → List String → String → Option Nat
  | 0, _, _ => none
  | fuel + 1, seen, name =>
    if seen.contains name then none
    else
      match OrderedMap.get? name unsignedSizes with
      | some bits => some bits
      | none =>
        match types.next? name with
        | some target => unsignedFrom types fuel (name :: seen) target
        | none => none

/-- The size in bits of a type that leads to an unsigned one.  Every step passes a declared type
that was not passed before, so there are no more steps than types. -/
def unsignedBits (types : Types) (name : Option String) : Option Nat :=
  name.bind (types.unsignedFrom (types.aliases.length + 2) [])

end Types
end EnumHelpers.Package
