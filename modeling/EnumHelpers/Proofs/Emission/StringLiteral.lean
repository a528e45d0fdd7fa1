import EnumHelpers.Proofs.Constant.Literal
import EnumHelpers.Proofs.Emission.Interpreted

/-!
# Proofs — string literals read back

A reader of interpreted string literals.  The value of a literal is a row of bytes: a character
stands for its UTF-8 form, and an escape for a byte or for the UTF-8 form of a code point.  A line
feed or an unescaped quote cannot stand in a literal, and the bytes must be well-formed UTF-8 to be
a text.  The reader finds every literal that a text begins with, whatever follows it, so that no
text begins with two of them.

* `literal?_of_denotes`: a literal is read as the text that it stands for.
* `literal?_stringLiteral`: so the literal of a text is read back as the text.
* `lineFeed_notMem_stringLiteral`: a literal lies on one line.
-/

namespace EnumHelpers.Emission
open Number Text

/-! ### Reading a literal -/

/-- The byte of an escape that is a single letter. -/
def letterEscape? : Char → Option UInt8
  | 'a' => some 0x07
  | 'b' => some 0x08
  | 'f' => some 0x0C
  | 'n' => some 0x0A
  | 'r' => some 0x0D
  | 't' => some 0x09
  | 'v' => some 0x0B
  | '\\' => some 0x5C
  | '"' => some 0x22
  | _ => none

/-- The number that the first `count` characters spell as digits of a base. -/
def fixedNumber? (base count : Nat) (cs : List Char) : Option Nat :=
  if cs.length < count then none
  else ((cs.take count).mapM (digitIn? base)).map (ofDigits base 0)

/-- The UTF-8 form of a code point that a character has. -/
def pointBytes? (n : Nat) : Option (List UInt8) :=
  if n.isValidChar then some (String.utf8EncodeChar (Char.ofNat n)) else none

/-- The bytes that an escape stands for, read from behind its backslash, with the number of
characters it takes there. -/
def escape? : List Char → Option (List UInt8 × Nat)
  | [] => none
  | c :: rest =>
    if c = 'x' then (fixedNumber? 16 2 rest).map fun n => ([UInt8.ofNat n], 3)
    else if c = 'u' then ((fixedNumber? 16 4 rest).bind pointBytes?).map fun bs => (bs, 5)
    else if c = 'U' then ((fixedNumber? 16 8 rest).bind pointBytes?).map fun bs => (bs, 9)
    else
      match letterEscape? c with
      | some b => some ([b], 1)
      | none =>
        match fixedNumber? 8 3 (c :: rest) with
        | some n => if n < 256 then some ([UInt8.ofNat n], 3) else none
        | none => none

/-- The bytes of a literal from behind its opening quote, once `skip` characters are passed over,
with the text after its closing quote. -/
def literalBytes? (skip : Nat) : List Char → Option (List UInt8 × List Char)
  | [] => none
  | c :: rest =>
    match skip with
    | k + 1 => literalBytes? k rest
    | 0 =>
      if c = '"' then some ([], rest)
      else if c = '\n' then none
      else if c = '\\' then
        match escape? rest with
        | some (bytes, k) => (literalBytes? k rest).map fun p => (bytes ++ p.1, p.2)
        | none => none
      else (literalBytes? 0 rest).map fun p => (String.utf8EncodeChar c ++ p.1, p.2)

/-- The text of the literal that a text begins with, and the text after it. -/
def literal? : List Char → Option (String × List Char)
  | [] => none
  | c :: rest =>
    if c = '"' then
      match literalBytes? 0 rest with
      | some (bytes, after) => (String.fromUTF8? bytes.toByteArray).map fun s => (s, after)
      | none => none
    else none

/-! ### Pieces are read -/

theorem literalBytes?_skip (taken rest : List Char) :
    literalBytes? taken.length (taken ++ rest) = literalBytes? 0 rest := by
  induction taken with
  | nil => rfl
  | cons c taken ih => rw [List.length_cons, List.cons_append, literalBytes?, ih]

/-- An escape whose characters are `taken` adds its bytes. -/
theorem literalBytes?_escape {taken : List Char} {bytes : List UInt8} (rest : List Char)
    (h : escape? (taken ++ rest) = some (bytes, taken.length)) :
    literalBytes? 0 ('\\' :: taken ++ rest) =
      (literalBytes? 0 rest).map fun p => (bytes ++ p.1, p.2) := by
  rw [List.cons_append, literalBytes?]
  simp only [Char.reduceEq, if_false, if_true, h, literalBytes?_skip]

theorem literalBytes?_plain {c : Char} (rest : List Char) (hq : c ≠ '"') (hl : c ≠ '\n')
    (hb : c ≠ '\\') :
    literalBytes? 0 (c :: rest) =
      (literalBytes? 0 rest).map fun p => (String.utf8EncodeChar c ++ p.1, p.2) := by
  rw [literalBytes?]
  simp only [hq, hl, hb, if_false]

theorem mapM_digitIn? {base : Nat} {cs : List Char} {ds : List Nat} (h : Spells base cs ds) :
    cs.mapM (digitIn? base) = some ds := by
  induction h with
  | nil => rfl
  | cons hc _ ih => simp [List.mapM_cons, hc, ih]

/-- The digits of a number of fixed length are read, whatever follows them. -/
theorem fixedNumber?_spells {base count : Nat} {cs : List Char} {ds : List Nat}
    (h : Spells base cs ds) (hcount : ds.length = count) (rest : List Char) :
    fixedNumber? base count (cs ++ rest) = some (positional base ds) := by
  have hlen : cs.length = count := h.length_eq.trans hcount
  have hlong : ¬ (cs ++ rest).length < count := by
    rw [List.length_append]
    omega
  rw [fixedNumber?, if_neg hlong, List.take_left' hlen, mapM_digitIn? h, Option.map_some,
    ofDigits_zero]

theorem escape?_letter {c : Char} {b : UInt8} (h : (c, b) ∈ letterEscapes) (rest : List Char) :
    escape? (c :: rest) = some ([b], 1) := by
  have hall : ∀ entry ∈ letterEscapes, entry.1 ∉ ['x', 'u', 'U'] ∧
      letterEscape? entry.1 = some entry.2 := by decide
  obtain ⟨hmark, hletter⟩ := hall _ h
  simp only [List.mem_cons, List.not_mem_nil, or_false, not_or] at hmark
  simp [escape?, hmark, hletter]

theorem escape?_octal {cs : List Char} {ds : List Nat} (h : Spells 8 cs ds) (hlen : ds.length = 3)
    (hlt : positional 8 ds < 256) (rest : List Char) :
    escape? (cs ++ rest) = some ([UInt8.ofNat (positional 8 ds)], 3) := by
  have hnumber := fixedNumber?_spells h hlen rest
  cases h with
  | nil => cases hlen
  | @cons c d cs ds hc h =>
      -- an octal digit is no other escape
      have hall : ∀ c ∈ ['0', '1', '2', '3', '4', '5', '6', '7'],
          c ∉ ['x', 'u', 'U'] ∧ letterEscape? c = none := by simp [letterEscape?]
      obtain ⟨hmark, hletter⟩ := hall c (Constant.mem_octalDigits hc)
      simp only [List.mem_cons, List.not_mem_nil, or_false, not_or] at hmark
      simp only [List.cons_append] at hnumber ⊢
      simp [escape?, hmark, hletter, hnumber, hlt]

theorem escape?_hex {cs : List Char} {ds : List Nat} (h : Spells 16 cs ds) (hlen : ds.length = 2)
    (rest : List Char) :
    escape? ('x' :: cs ++ rest) = some ([UInt8.ofNat (positional 16 ds)], 3) := by
  simp [escape?, fixedNumber?_spells h hlen]

theorem escape?_point {mark : Char} {count : Nat} {cs : List Char} {ds : List Nat}
    (hmark : (mark, count) ∈ pointEscapes) (h : Spells 16 cs ds) (hlen : ds.length = count)
    (hvalid : (positional 16 ds).isValidChar) (rest : List Char) :
    escape? (mark :: cs ++ rest) =
      some (String.utf8EncodeChar (Char.ofNat (positional 16 ds)), count + 1) := by
  simp only [pointEscapes, List.mem_cons, List.not_mem_nil, or_false, Prod.mk.injEq] at hmark
  rcases hmark with ⟨rfl, rfl⟩ | ⟨rfl, rfl⟩
  all_goals simp [escape?, fixedNumber?_spells h hlen, pointBytes?, hvalid]

/-- **A piece adds the bytes that it stands for**, whatever follows it. -/
theorem literalBytes?_piece {cs : List Char} {bytes : List UInt8} (h : Piece cs bytes)
    (rest : List Char) :
    literalBytes? 0 (cs ++ rest) =
      (literalBytes? 0 rest).map fun p => (bytes ++ p.1, p.2) := by
  cases h with
  | char hc =>
      simp only [List.mem_cons, List.not_mem_nil, or_false, not_or] at hc
      exact literalBytes?_plain rest hc.1 hc.2.2 hc.2.1
  | @letter c b hc =>
      have hread : escape? ([c] ++ rest) = some ([b], [c].length) := escape?_letter hc rest
      exact literalBytes?_escape rest hread
  | octal h hlen hlt =>
      refine literalBytes?_escape rest ?_
      rw [escape?_octal h hlen hlt, h.length_eq, hlen]
  | hex h hlen =>
      refine literalBytes?_escape rest ?_
      rw [escape?_hex h hlen, List.length_cons, h.length_eq, hlen]
  | point hmark h hlen hvalid =>
      refine literalBytes?_escape rest ?_
      rw [escape?_point hmark h hlen hvalid, List.length_cons, h.length_eq, hlen]

theorem literalBytes?_interpreted {body : List Char} {bytes : List UInt8}
    (h : Interpreted body bytes) (rest : List Char) :
    literalBytes? 0 (body ++ rest) =
      (literalBytes? 0 rest).map fun p => (bytes ++ p.1, p.2) := by
  induction h with
  | nil => cases h : literalBytes? 0 rest <;> simp [h]
  | cons hpiece _ ih =>
      rw [List.append_assoc, literalBytes?_piece hpiece, ih, Option.map_map]
      simp [Function.comp_def]

/-- The first quote behind a row of pieces closes the literal. -/
theorem literalBytes?_closed {body : List Char} {bytes : List UInt8} (h : Interpreted body bytes)
    (rest : List Char) : literalBytes? 0 (body ++ '"' :: rest) = some (bytes, rest) := by
  rw [literalBytes?_interpreted h]
  simp [literalBytes?]

/-! ### Literals are read -/

theorem fromUTF8?_toByteArray (s : String) : String.fromUTF8? s.toByteArray = some s := by
  rw [String.fromUTF8?, dif_pos s.isValidUTF8]
  rfl

/-- **A literal is read as the text that it stands for**, whatever follows it. -/
theorem literal?_of_denotes {literal : List Char} {s : String} (h : Denotes literal s)
    (rest : List Char) : literal? (literal ++ rest) = some (s, rest) := by
  obtain ⟨body, bytes, rfl, hbody, hbytes⟩ := h
  simp [literal?, literalBytes?_closed hbody, hbytes, fromUTF8?_toByteArray]

/-- **A written literal is read back.** -/
theorem literal?_stringLiteral (s : String) (rest : List Char) :
    literal? ((stringLiteral s).toList ++ rest) = some (s, rest) :=
  literal?_of_denotes (denotes_stringLiteral s) rest

/-- A literal lies on one line. -/
theorem lineFeed_notMem_stringLiteral (s : String) : '\n' ∉ (stringLiteral s).toList :=
  fun h => not_isControl_stringLiteral s _ h (by decide)

theorem stringLiteral_injective : Function.Injective stringLiteral := by
  intro s t h
  have hs := literal?_stringLiteral s []
  rw [h, literal?_stringLiteral t []] at hs
  cases hs
  rfl

/-- **A text is written as one literal.**  The literal of a text stands for the text.  It holds no
control, and no quote in it but the last has only whole pieces before it.  Whatever follows it,
the text that it stands before begins with no other literal, and the literal stands for nothing
else.  So different texts have different literals. -/
theorem stringLiteral_wellFormed (s : String) :
    Denotes (stringLiteral s).toList s ∧
      (∀ c ∈ (stringLiteral s).toList, ¬ IsControl c) ∧
      (¬ ∃ before bytes after, Interpreted before bytes ∧ after ≠ [] ∧
        (stringLiteral s).toList = '"' :: before ++ '"' :: after) ∧
      (∀ rest literal t after,
        ((stringLiteral s).toList ++ rest = literal ++ after ∧ Denotes literal t) ↔
          (literal = (stringLiteral s).toList ∧ t = s ∧ after = rest)) ∧
      ∀ t, stringLiteral t = stringLiteral s ↔ t = s := by
  refine ⟨denotes_stringLiteral s, not_isControl_stringLiteral s, ?_,
    fun rest literal t after => ?_, fun t => stringLiteral_injective.eq_iff⟩
  · rintro ⟨before, bytes, after, hbefore, hafter, h⟩
    rw [toList_stringLiteral, List.cons_append, List.cons_append] at h
    have hread := literalBytes?_closed (interpreted_flatMap s.toList) []
    rw [List.cons_injective h, literalBytes?_closed hbefore] at hread
    cases hread
    exact hafter rfl
  · constructor
    · rintro ⟨h, hdenotes⟩
      have hread := literal?_stringLiteral s rest
      rw [h, literal?_of_denotes hdenotes] at hread
      cases hread
      exact ⟨(List.append_cancel_right h).symm, rfl, rfl⟩
    · rintro ⟨rfl, rfl, rfl⟩
      exact ⟨rfl, denotes_stringLiteral t⟩

end EnumHelpers.Emission
