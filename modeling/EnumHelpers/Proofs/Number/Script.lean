import EnumHelpers.Proofs.Number.Digits
import EnumHelpers.Proofs.Text.Lines

/-!
# Proofs — digits of any script

A decimal digit of any script is read as the digit of the same value.  Other digits, such as the
superscript ones, stand for themselves, and no base has them.

* `digitIn?_plainChar`: the digit that is read of a character.
-/

namespace EnumHelpers.Number
open Text

variable {base : Nat} {c : Char} {d : Nat}

theorem digitAbove_lt {zs : List Nat} {n : Nat} (h : digitAbove zs n = some d) : d < 10 := by
  induction zs with
  | nil => cases h
  | cons z zs ih =>
      rw [digitAbove] at h
      split_ifs at h with hlow hnear
      · cases h
        omega
      · exact ih h

/-- Among the first 128 characters, those from `0` to `9` are the digits. -/
theorem decimalValue?_of_lt (h : isDigit c = true) (hc : c.toNat < 128) :
    0x30 ≤ c.toNat ∧ c.toNat < 0x3A ∧ decimalValue? c = some (c.toNat - 0x30) := by
  have hsingle : inRanges singleDigitRanges c.toNat = false := by
    rw [singleDigitRanges, inRanges, if_pos (by omega)]
  rw [isDigit, hsingle, Bool.or_false, isDecimal, Option.isSome_iff_exists] at h
  obtain ⟨d, hd⟩ := h
  have hvalue := hd
  rw [decimalValue?, zeros, digitAbove] at hvalue
  split_ifs at hvalue with hlow hnear
  · cases hvalue
    exact ⟨by omega, hnear, hd⟩
  · rw [digitAbove, if_pos (by omega)] at hvalue
    cases hvalue

/-- What is read of a digit: the digit with its value, or itself if it has none. -/
theorem plainChar_of_isDigit (h : isDigit c = true) :
    (∃ d < 10, decimalValue? c = some d ∧ plainChar c = Nat.digitChar d) ∨
      (decimalValue? c = none ∧ 128 ≤ c.toNat ∧ plainChar c = c) := by
  by_cases hc : c.toNat < 128
  · obtain ⟨hlow, hhigh, hd⟩ := decimalValue?_of_lt h hc
    have digits : ∀ k < 10, Char.ofNat (0x30 + k) = Nat.digitChar k := by decide
    have hk : c.toNat - 0x30 < 10 := by omega
    refine .inl ⟨_, hk, hd, ?_⟩
    rw [plainChar, if_pos hc, ← digits _ hk, Nat.add_sub_cancel' hlow, Char.ofNat_toNat]
  · have hblank : isBlank c = false := isBlank_eq_false_of (by decide +kernel) h
    rw [plainChar, if_neg hc, hblank, if_neg Bool.false_ne_true]
    cases hd : decimalValue? c with
    | some d => exact .inl ⟨d, digitAbove_lt hd, rfl, rfl⟩
    | none => exact .inr ⟨rfl, by omega, rfl⟩

/-- **A digit is read as the digit of a base that has its value.** -/
theorem digitIn?_plainChar (h : isDigit c = true) :
    digitIn? base (plainChar c) = some d ↔ decimalValue? c = some d ∧ d < base := by
  rcases plainChar_of_isDigit h with ⟨v, hv, hd, hc⟩ | ⟨hd, hc, hp⟩
  · have hvalue : ∀ v < 10, digitValue? (Nat.digitChar v) = some v := by decide
    rw [hc, hd, digitIn?, hvalue v hv]
    dsimp only
    split
    · rename_i hlt
      constructor
      · rintro ⟨⟩
        exact ⟨rfl, hlt⟩
      · exact And.left
    · rename_i hle
      constructor
      · rintro ⟨⟩
      · rintro ⟨⟨⟩, hlt⟩
        exact absurd hlt hle
  · have hvalue : digitValue? c = none := by
      rw [digitValue?, if_neg (by omega), if_neg (by omega), if_neg (by omega)]
    rw [hp, hd, digitIn?, hvalue]
    simp only [reduceCtorEq, false_and]

/-- What is read of a digit is no blank, no low line and no letter of a base. -/
theorem plainChar_digit (h : isDigit c = true) : isMargin (plainChar c) = false ∧
    plainChar c ≠ '_' ∧ prefixBase? (plainChar c) = none := by
  rcases plainChar_of_isDigit h with ⟨v, hv, -, hc⟩ | ⟨-, hc, hp⟩
  · have hall : ∀ v < 10, isMargin (Nat.digitChar v) = false ∧ Nat.digitChar v ≠ '_' ∧
        prefixBase? (Nat.digitChar v) = none := by decide
    rw [hc]
    exact hall v hv
  · have hne : ∀ k : Char, k.toNat < 128 → c ≠ k := by
      rintro k hk rfl
      omega
    rw [hp]
    refine ⟨?_, hne _ (by decide), ?_⟩
    · rw [isMargin, beq_eq_false_iff_ne.mpr (hne _ (by decide)), Bool.false_or,
        Bool.and_eq_false_iff]
      exact .inr (decide_eq_false (by omega))
    · simp only [prefixBase?, hne _ (by decide : 'x'.toNat < 128),
        hne _ (by decide : 'X'.toNat < 128), hne _ (by decide : 'o'.toNat < 128),
        hne _ (by decide : 'O'.toNat < 128), hne _ (by decide : 'b'.toNat < 128),
        hne _ (by decide : 'B'.toNat < 128), or_self, if_false]

end EnumHelpers.Number
