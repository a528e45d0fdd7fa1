import EnumHelpers.Text.Quoted

/-!
# Emission — string literals

A text as an interpreted string literal of the generated file: the quote, the backslash and the
seven controls that have a letter are escaped by it, and every other control by two hexadecimal
digits.
-/

namespace EnumHelpers.Emission
open Text

/-- One character of a literal. -/
def literalChar (c : Char) : List Char :=
  match c with
  | '\\' => ['\\', '\\']
  | '"' => ['\\', '"']
  | '\x07' => ['\\', 'a']
  | '\x08' => ['\\', 'b']
  | '\x0c' => ['\\', 'f']
  | '\n' => ['\\', 'n']
  | '\r' => ['\\', 'r']
  | '\t' => ['\\', 't']
  | '\x0b' => ['\\', 'v']
  | c => if c.toNat < 0x20 ∨ c.toNat = 0x7F then '\\' :: 'x' :: hexDigits 2 c.toNat else [c]

/-- A text as a string literal. -/
def stringLiteral (s : String) : String :=
  String.ofList ('"' :: s.toList.flatMap literalChar ++ ['"'])

end EnumHelpers.Emission
