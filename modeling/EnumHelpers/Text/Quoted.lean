import EnumHelpers.Text.Character

/-!
# Text — text shown in quotes

The form in which messages show a text: between single quotes, or between double quotes when it
holds a single quote and no double one.  The backslash and the quote in use are escaped, line
feed, carriage return and tab have letters of their own, and every other character that is not
printed as it stands is shown by its code point in hexadecimal.
-/

namespace EnumHelpers.Text

/-- The last `width` hexadecimal digits of a number, in small letters. -/
def hexDigits (width n : Nat) : List Char :=
  ((List.range width).map fun k => Nat.digitChar (n / Nat.pow 16 k % 16)).reverse

/-- The escape of a character that is not printed as it stands: two, four or eight digits. -/
def codePointEscape (n : Nat) : List Char :=
  if n < 0x100 then '\\' :: 'x' :: hexDigits 2 n
  else if n < 0x10000 then '\\' :: 'u' :: hexDigits 4 n
  else '\\' :: 'U' :: hexDigits 8 n

/-- One character of a quoted text. -/
def quotedChar (quote c : Char) : List Char :=
  if c = quote ∨ c = '\\' then ['\\', c]
  else if c = '\n' then ['\\', 'n']
  else if c = '\r' then ['\\', 'r']
  else if c = '\t' then ['\\', 't']
  else if isPrintable c then [c]
  else codePointEscape c.toNat

/-- The quotes around a text. -/
def quoteMark (cs : List Char) : Char :=
  if cs.contains '\'' && !cs.contains '"' then '"' else '\''

/-- A text in quotes. -/
def quoted (s : String) : String :=
  let q := quoteMark s.toList
  String.ofList (q :: s.toList.flatMap (quotedChar q) ++ [q])

end EnumHelpers.Text
