import EnumHelpers.Failure
import EnumHelpers.Text.Character

/-!
# Emission — names

Which texts may stand as a name in the generated file: words that begin with no decimal digit and
are not reserved.  A line feed at the very end of the text is passed over.
-/

namespace EnumHelpers.Emission
open Text

/-- The words that may not be used as names. -/
def reservedWords : List String := [
  "break", "case", "chan", "const", "continue", "default", "defer", "else", "fallthrough", "for",
  "func", "go", "goto", "if", "import", "interface", "map", "package", "range", "return",
  "select", "struct", "switch", "type", "var"]

/-- A text without the line feed at its end. -/
def withoutLastLineFeed (cs : List Char) : List Char :=
  if cs.getLast? = some '\n' then cs.dropLast else cs

/-- Whether a text is a character accepted by `first` and then characters accepted by `other`,
up to a line feed at the end. -/
def isWordOf (first other : Char → Bool) : List Char → Bool
  | [] => false
  | c :: rest => first c && (withoutLastLineFeed rest).all other

/-- Whether a text has the form of a name. -/
def isWord (s : String) : Bool :=
  isWordOf (fun c => isWordChar c && !isDecimal c) isWordChar s.toList

/-- Whether a text may stand as a name. -/
def isIdentifier (s : String) : Bool :=
  isWord s && !reservedWords.contains s

/-- What is wrong with a package name. -/
def packageFaults (name : String) : List JobFault :=
  if name = "" then [.emptyPackageName]
  else
    (if isWord name then [] else [.packageNotIdentifier name]) ++
      (if reservedWords.contains name then [.packageReserved name] else [])

end EnumHelpers.Emission
