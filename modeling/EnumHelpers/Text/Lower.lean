import EnumHelpers.Text.Character
import EnumHelpers.Text.CaseTable

/-!
# Text — lower case

The small-letter form of a text.  Every capital has one small letter, with two exceptions: the
dotted capital I becomes an i and a combining dot, and a capital sigma that ends a word becomes
the final form.
-/

namespace EnumHelpers.Text

/-- The distance from a capital to its small letter, by the ascending runs. -/
def capitalShift : List CapitalRun → Nat → Int
  | [], _ => 0
  | r :: rest, n =>
    if n < r.first then 0
    else if n ≤ r.last ∧ (n - r.first) % r.step = 0 then r.shift
    else capitalShift rest n

/-- The small letter of a character, taken by itself. -/
def lowerChar (c : Char) : Char :=
  Char.ofNat (c.toNat + capitalShift capitalRuns c.toNat).toNat

/-- Whether a character has case. -/
def isCased (c : Char) : Bool :=
  inRanges casedRanges c.toNat

/-- Whether a character is passed over when looking for a neighbour that has case. -/
def isCaseIgnorable (c : Char) : Bool :=
  inRanges caseIgnorableRanges c.toNat

/-- Whether the first character that is not passed over has case. -/
def meetsCased (cs : List Char) : Bool :=
  match cs.dropWhile isCaseIgnorable with
  | [] => false
  | c :: _ => isCased c

/-- The small letters of a character that stands between `before`, read backwards, and
`after`. -/
def lowerBetween (before : List Char) (c : Char) (after : List Char) : List Char :=
  if c = 'Σ' then [if meetsCased before && !meetsCased after then 'ς' else 'σ']
  else if c = 'İ' then ['i', '\u0307']
  else [lowerChar c]

/-- The small-letter form of the characters that follow `before`, read backwards. -/
def lowerAfter (before : List Char) : List Char → List Char
  | [] => []
  | c :: rest => lowerBetween before c rest ++ lowerAfter (c :: before) rest

/-- The small-letter form of a text. -/
def lower (s : String) : String :=
  String.ofList (lowerAfter [] s.toList)

end EnumHelpers.Text
