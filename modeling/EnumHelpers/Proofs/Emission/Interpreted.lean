import EnumHelpers.Emission.StringLiteral
import EnumHelpers.Proofs.Number.Digits

/-!
# Proofs — interpreted string literals

What may stand between the quotes of an interpreted string literal, and the bytes it stands for.
Every character but the quote, the backslash and the line feed stands for its UTF-8 form
(`Piece.char`).  An escape stands for a byte, by a letter or by digits, or for the UTF-8 form of
a code point.  A literal is a row of such pieces between quotes, and its value is the text whose
UTF-8 form its bytes are (`Denotes`).

* `piece_literalChar`: a written character is one piece, which stands for the character.
* `denotes_stringLiteral`: a written literal stands for its text.
-/

namespace EnumHelpers.Emission
open Number Text

/-! ### The grammar -/

/-- The escapes that are a single letter. -/
def letterEscapes : List (Char × UInt8) := [
  ('a', 0x07), ('b', 0x08), ('f', 0x0C), ('n', 0x0A), ('r', 0x0D), ('t', 0x09), ('v', 0x0B),
  ('\\', 0x5C), ('"', 0x22)]

/-- The escapes of a code point, with the number of their hexadecimal digits. -/
def pointEscapes : List (Char × Nat) := [('u', 4), ('U', 8)]

/-- A character or an escape of a literal, with the bytes that it stands for. -/
inductive Piece : List Char → List UInt8 → Prop where
  | char {c : Char} : c ∉ ['"', '\\', '\n'] → Piece [c] (String.utf8EncodeChar c)
  | letter {c : Char} {b : UInt8} : (c, b) ∈ letterEscapes → Piece ['\\', c] [b]
  | octal {cs : List Char} {ds : List Nat} :
      Spells 8 cs ds → ds.length = 3 → positional 8 ds < 256 →
        Piece ('\\' :: cs) [UInt8.ofNat (positional 8 ds)]
  | hex {cs : List Char} {ds : List Nat} :
      Spells 16 cs ds → ds.length = 2 → Piece ('\\' :: 'x' :: cs) [UInt8.ofNat (positional 16 ds)]
  | point {mark : Char} {count : Nat} {cs : List Char} {ds : List Nat} :
      (mark, count) ∈ pointEscapes → Spells 16 cs ds → ds.length = count →
        (positional 16 ds).isValidChar →
        Piece ('\\' :: mark :: cs) (String.utf8EncodeChar (Char.ofNat (positional 16 ds)))

/-- What stands between the quotes of a literal, with the bytes that it stands for. -/
inductive Interpreted : List Char → List UInt8 → Prop where
  | nil : Interpreted [] []
  | cons {cs rest : List Char} {bytes more : List UInt8} :
      Piece cs bytes → Interpreted rest more → Interpreted (cs ++ rest) (bytes ++ more)

/-- A literal with the text that it stands for. -/
def Denotes (literal : List Char) (s : String) : Prop :=
  ∃ body bytes, literal = '"' :: body ++ ['"'] ∧ Interpreted body bytes ∧
    bytes.toByteArray = s.toByteArray

/-! ### What is written -/

theorem digitIn?_digitChar : ∀ d < 16, digitIn? 16 (Nat.digitChar d) = some d := by decide

theorem hexDigits_two {n : Nat} (h : n < 256) :
    hexDigits 2 n = [Nat.digitChar (n / 16), Nat.digitChar (n % 16)] := by
  have hhigh : n / Nat.pow 16 1 % 16 = n / 16 := by
    rw [Nat.pow_eq, Nat.pow_one]
    omega
  have hlow : n / Nat.pow 16 0 % 16 = n % 16 := by rw [Nat.pow_eq, Nat.pow_zero, Nat.div_one]
  rw [← hhigh, ← hlow]
  rfl

/-- Two hexadecimal digits spell the number below 256 that they were made of. -/
theorem spells_hexDigits {n : Nat} (h : n < 256) : Spells 16 (hexDigits 2 n) [n / 16, n % 16] := by
  rw [hexDigits_two h]
  exact .cons (digitIn?_digitChar _ (by omega)) (.cons (digitIn?_digitChar _ (by omega)) .nil)

theorem positional_pair (base a b : Nat) : positional base [a, b] = b + base * a := by
  simp [positional, Nat.ofDigits_cons]

theorem utf8EncodeChar_of_lt {c : Char} (h : c.toNat < 128) :
    String.utf8EncodeChar c = [UInt8.ofNat c.toNat] := by
  have hc : c.val.toNat ≤ 0x7f := Nat.le_of_lt_succ h
  rw [String.utf8EncodeChar, if_pos hc]
  rfl

/-- **A written character is one piece** of a literal, which stands for the character. -/
theorem piece_literalChar (c : Char) : Piece (literalChar c) (String.utf8EncodeChar c) := by
  have letter : ∀ {e : Char}, (e, UInt8.ofNat c.toNat) ∈ letterEscapes → c.toNat < 128 →
      Piece ['\\', e] (String.utf8EncodeChar c) := by
    intro e he hlt
    rw [utf8EncodeChar_of_lt hlt]
    exact .letter he
  unfold literalChar
  split
  case h_10 h₁ h₂ _ _ _ hn _ _ _ =>
      split
      · have hlt : c.toNat < 128 := by omega
        have hpiece := Piece.hex (spells_hexDigits (n := c.toNat) (by omega)) rfl
        have hvalue : positional 16 [c.toNat / 16, c.toNat % 16] = c.toNat := by
          rw [positional_pair]
          omega
        rw [hvalue] at hpiece
        rw [utf8EncodeChar_of_lt hlt]
        exact hpiece
      · simp only [imp_false] at h₁ h₂ hn
        exact .char (by simp [h₁, h₂, hn])
  all_goals exact letter (by decide) (by decide)

theorem interpreted_flatMap (cs : List Char) :
    Interpreted (cs.flatMap literalChar) (cs.flatMap String.utf8EncodeChar) := by
  induction cs with
  | nil => exact .nil
  | cons c cs ih => exact .cons (piece_literalChar c) ih

theorem toList_stringLiteral (s : String) :
    (stringLiteral s).toList = '"' :: s.toList.flatMap literalChar ++ ['"'] := by
  rw [stringLiteral, String.toList_ofList]

/-- **A written literal stands for its text.** -/
theorem denotes_stringLiteral (s : String) : Denotes (stringLiteral s).toList s :=
  ⟨_, _, toList_stringLiteral s, interpreted_flatMap s.toList, String.utf8Encode_toList⟩

/-! ### Controls -/

/-- A control, which is no character of a literal. -/
def IsControl (c : Char) : Prop := c.toNat < 0x20 ∨ c.toNat = 0x7F

instance (c : Char) : Decidable (IsControl c) := inferInstanceAs (Decidable (_ ∨ _))

theorem not_isControl_digitChar : ∀ d < 16, ¬ IsControl (Nat.digitChar d) := by decide

theorem not_isControl_literalChar (c : Char) : ∀ k ∈ literalChar c, ¬ IsControl k := by
  unfold literalChar
  split
  case h_10 =>
      split
      · rw [hexDigits_two (by omega)]
        simp only [List.forall_mem_cons]
        exact ⟨by decide, by decide, not_isControl_digitChar _ (by omega),
          not_isControl_digitChar _ (by omega), List.forall_mem_nil _⟩
      · rename_i hc
        exact List.forall_mem_singleton.mpr hc
  all_goals
    exact List.forall_mem_cons.mpr ⟨by decide, List.forall_mem_singleton.mpr (by decide)⟩

/-- **A written literal holds no control**, so that it lies on one line. -/
theorem not_isControl_stringLiteral (s : String) :
    ∀ c ∈ (stringLiteral s).toList, ¬ IsControl c := by
  intro c hc
  rw [toList_stringLiteral] at hc
  simp only [List.mem_append, List.mem_cons, List.mem_flatMap, List.not_mem_nil, or_false] at hc
  rcases hc with (rfl | ⟨d, -, hd⟩) | rfl
  · decide
  · exact not_isControl_literalChar d c hd
  · decide

end EnumHelpers.Emission
