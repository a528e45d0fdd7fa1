/-!
# Text — file content

The content of a file is a sequence of glyphs: characters, and single bytes that belong to no
well-formed character.  Bytes are read strictly: no overlong form, no surrogate, nothing above
the last code point.  Content read as text either refuses the stray bytes or replaces each
broken sequence by one replacement character.
-/

namespace EnumHelpers.Text

/-- A character, or a byte that is part of none. -/
inductive Glyph where
  | char (c : Char)
  | stray (b : Nat)
  deriving DecidableEq, Repr

/-- The number of bytes a glyph takes. -/
def Glyph.width : Glyph → Nat
  | .char c => c.utf8Size
  | .stray _ => 1

/-- Whether a byte may follow a lead byte directly. -/
def followsLead (lead b : Nat) : Bool :=
  if lead = 0xE0 then 0xA0 ≤ b && b ≤ 0xBF
  else if lead = 0xED then 0x80 ≤ b && b ≤ 0x9F
  else if lead = 0xF0 then 0x90 ≤ b && b ≤ 0xBF
  else if lead = 0xF4 then 0x80 ≤ b && b ≤ 0x8F
  else 0x80 ≤ b && b ≤ 0xBF

/-- Whether a byte may follow at a later place. -/
def isTail (b : Nat) : Bool :=
  0x80 ≤ b && b ≤ 0xBF

/-- The number of bytes that follow a lead byte; none for a byte that leads no sequence. -/
def tailCount (lead : Nat) : Nat :=
  if 0xC2 ≤ lead ∧ lead ≤ 0xDF then 1
  else if 0xE0 ≤ lead ∧ lead ≤ 0xEF then 2
  else if 0xF0 ≤ lead ∧ lead ≤ 0xF4 then 3
  else 0

/-- The character that a lead byte and the bytes after it spell, with the number of bytes after
the lead that belong to it. -/
def leadChar? (lead : Nat) (rest : List Nat) : Option (Char × Nat) :=
  if lead < 0x80 then some (Char.ofNat lead, 0)
  else
    match tailCount lead, rest with
    | 1, b :: _ =>
      if followsLead lead b then some (Char.ofNat ((lead - 0xC0) * 64 + (b - 0x80)), 1) else none
    | 2, b :: c :: _ =>
      if followsLead lead b && isTail c then
        some (Char.ofNat ((lead - 0xE0) * 4096 + (b - 0x80) * 64 + (c - 0x80)), 2)
      else none
    | 3, b :: c :: d :: _ =>
      if followsLead lead b && isTail c && isTail d then
        some (Char.ofNat
          ((lead - 0xF0) * 262144 + (b - 0x80) * 4096 + (c - 0x80) * 64 + (d - 0x80)), 3)
      else none
    | _, _ => none

/-- The glyphs of the bytes that are left once `skip` of them are passed over. -/
def glyphsFrom (skip : Nat) : List Nat → List Glyph
  | [] => []
  | b :: rest =>
    match skip with
    | k + 1 => glyphsFrom k rest
    | 0 =>
      match leadChar? b rest with
      | some (c, k) => .char c :: glyphsFrom k rest
      | none => .stray b :: glyphsFrom 0 rest

/-- The content that bytes spell. -/
def glyphsOfBytes (bytes : List Nat) : List Glyph :=
  glyphsFrom 0 bytes

/-- The content of a file that holds a text. -/
def glyphsOfText (s : String) : List Glyph :=
  s.toList.map .char

/-- The characters of a content, when it has no stray byte. -/
def charsOfGlyphs : List Glyph → Option (List Char)
  | [] => some []
  | .char c :: rest => (charsOfGlyphs rest).map (c :: ·)
  | .stray _ :: _ => none

/-- The text of a content, when it has no stray byte. -/
def textOfGlyphs (gs : List Glyph) : Option String :=
  (charsOfGlyphs gs).map String.ofList

/-- Content without stray bytes is read as its characters. -/
theorem textOfGlyphs_map (cs : List Char) :
    textOfGlyphs (cs.map .char) = some (String.ofList cs) := by
  have hchars : charsOfGlyphs (cs.map .char) = some cs := by
    induction cs with
    | nil => rfl
    | cons c cs ih => rw [List.map_cons, charsOfGlyphs, ih, Option.map_some]
  rw [textOfGlyphs, hchars, Option.map_some]

/-- The number of stray bytes, at most `owed`, that continue a broken sequence. -/
def brokenTail (accept : Nat → Bool) : Nat → List Glyph → Nat
  | owed + 1, .stray b :: rest => if accept b then brokenTail isTail owed rest + 1 else 0
  | _, _ => 0

/-- The characters left once `skip` glyphs are passed over, each broken sequence replaced. -/
def replacedFrom (skip : Nat) : List Glyph → List Char
  | [] => []
  | g :: rest =>
    match skip, g with
    | k + 1, _ => replacedFrom k rest
    | 0, .char c => c :: replacedFrom 0 rest
    | 0, .stray b =>
      '\uFFFD' :: replacedFrom (brokenTail (followsLead b) (tailCount b) rest) rest

/-- The text of a content, with a replacement character for every broken sequence. -/
def replacedText (gs : List Glyph) : String :=
  String.ofList (replacedFrom 0 gs)

end EnumHelpers.Text
