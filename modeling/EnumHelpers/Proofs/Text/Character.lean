import EnumHelpers.Text.Character
import Mathlib.Tactic.ByContra
import Mathlib.Tactic.SplitIfs

/-!
# Proofs — classes of characters

The classes are lists of ascending ranges.  Two lists are compared in one pass (`apart`), so that
letters, decimal digits and the other numbers are known to be apart.

* `isWordChar_eq`: a character of a word is a letter or the low line, a decimal digit, or a number
  that is none.
* `isOtherNumber_of_isNameLetter`, `isOtherNumber_of_isDecimal`, `isDecimal_of_isNameLetter`: no
  character is of two of these kinds.
-/

namespace EnumHelpers.Text

/-! ### Ranges that are apart -/

/-- Whether ascending ranges have no number in common. -/
def apart : List (Nat × Nat) → List (Nat × Nat) → Bool
  | [], _ => true
  | (first, last) :: rest, others =>
    match others.dropWhile fun r => r.2 < first with
    | [] => true
    | r :: more => last < r.1 && apart rest (r :: more)

/-- A number is in no range that ends below it. -/
theorem inRanges_dropWhile {rs : List (Nat × Nat)} {low n : Nat} (hlow : low ≤ n)
    (h : inRanges rs n = true) : inRanges (rs.dropWhile fun r => r.2 < low) n = true := by
  induction rs with
  | nil => exact h
  | cons r rest ih =>
      rw [List.dropWhile_cons]
      split
      · rename_i hbelow
        have hlast : r.2 < low := by simpa using hbelow
        rw [inRanges] at h
        split_ifs at h with hfirst hin
        · omega
        · exact ih h
      · exact h

/-- A number in the one list of ranges is not in the other, if the two are apart. -/
theorem inRanges_eq_false_of_apart {as bs : List (Nat × Nat)} {n : Nat} (h : apart as bs = true)
    (ha : inRanges as n = true) : inRanges bs n = false := by
  induction as generalizing bs with
  | nil => cases ha
  | cons r rest ih =>
      obtain ⟨first, last⟩ := r
      by_contra hb
      have hfirst : first ≤ n := by
        by_contra hlow
        simp [inRanges, Nat.not_le.mp hlow] at ha
      have hkept := inRanges_dropWhile hfirst (Bool.not_eq_false _ ▸ hb)
      rw [apart] at h
      split at h
      · rename_i hnone
        rw [hnone] at hkept
        cases hkept
      · rename_i next more hsome
        rw [Bool.and_eq_true, decide_eq_true_eq] at h
        rw [hsome] at hkept
        rw [inRanges, if_neg (Nat.not_lt.mpr hfirst)] at ha
        split_ifs at ha with hlast
        -- what is left of the other ranges begins above the first one
        · rw [inRanges, if_pos (by omega)] at hkept
          cases hkept
        · rw [ih h.2 ha] at hkept
          cases hkept

/-! ### Letters and numbers -/

/-- The ranges of the decimal digits. -/
def decimalRanges : List (Nat × Nat) := zeros.map fun z => (z, z + 9)

theorem isSome_digitAbove (zs : List Nat) (n : Nat) :
    (digitAbove zs n).isSome = inRanges (zs.map fun z => (z, z + 9)) n := by
  induction zs with
  | nil => rfl
  | cons z rest ih =>
      rw [digitAbove, List.map_cons, inRanges, ← ih]
      split_ifs
      all_goals first | rfl | omega

theorem isDecimal_eq (c : Char) : isDecimal c = inRanges decimalRanges c.toNat :=
  isSome_digitAbove zeros c.toNat

/-- A letter of a name: the low line, or a letter of any script. -/
def isNameLetter (c : Char) : Bool := c == '_' || isLetter c

/-- A number that is no decimal digit, such as a Roman numeral or a superscript. -/
def isOtherNumber (c : Char) : Bool :=
  inRanges numberLetterRanges c.toNat || inRanges otherNumberRanges c.toNat

theorem isWordChar_eq (c : Char) :
    isWordChar c = (isNameLetter c || isDecimal c || isOtherNumber c) := by
  simp only [isWordChar, isLetterOrNumber, isNameLetter, isOtherNumber, Bool.or_assoc]

theorem isDecimal_of_isNameLetter {c : Char} (h : isNameLetter c = true) : isDecimal c = false := by
  rw [isNameLetter, Bool.or_eq_true, beq_iff_eq] at h
  rcases h with rfl | h
  · decide
  · rw [isDecimal_eq]
    exact inRanges_eq_false_of_apart (by decide +kernel) h

theorem isOtherNumber_of_isNameLetter {c : Char} (h : isNameLetter c = true) :
    isOtherNumber c = false := by
  rw [isNameLetter, Bool.or_eq_true, beq_iff_eq] at h
  rcases h with rfl | h
  · decide
  · rw [isOtherNumber, Bool.or_eq_false_iff]
    exact ⟨inRanges_eq_false_of_apart (by decide +kernel) h,
      inRanges_eq_false_of_apart (by decide +kernel) h⟩

theorem isOtherNumber_of_isDecimal {c : Char} (h : isDecimal c = true) :
    isOtherNumber c = false := by
  rw [isDecimal_eq] at h
  rw [isOtherNumber, Bool.or_eq_false_iff]
  exact ⟨inRanges_eq_false_of_apart (by decide +kernel) h,
    inRanges_eq_false_of_apart (by decide +kernel) h⟩

end EnumHelpers.Text
