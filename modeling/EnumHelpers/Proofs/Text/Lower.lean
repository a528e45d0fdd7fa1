import EnumHelpers.Text.Lower
import Mathlib.Tactic.SplitIfs

/-!
# Proofs — lower case

Small letters lie from the letter a on, so that a character below it that is no capital stands in
the small-letter form of a text where it stands in the text, and nowhere else.

* `head?_lower`: such a character begins the small-letter form if and only if it begins the text.
-/

namespace EnumHelpers.Text

/-- A character below the small letters that is no capital. -/
structure Unshifted (x : Char) : Prop where
  pos : 0 < x.toNat
  below : x.toNat < 0x61
  noCapital : capitalShift capitalRuns x.toNat = 0

/-- A character is shifted by nothing, or by the shift of a run of capitals that begins at or
below it. -/
theorem capitalShift_cases (runs : List CapitalRun) (n : Nat) :
    capitalShift runs n = 0 ∨ ∃ r ∈ runs, r.first ≤ n ∧ capitalShift runs n = r.shift := by
  induction runs with
  | nil => exact .inl rfl
  | cons r rest ih =>
      rw [capitalShift]
      split_ifs with hlow hin
      · exact .inl rfl
      · exact .inr ⟨r, List.mem_cons_self, Nat.not_lt.mp hlow, rfl⟩
      · exact ih.imp_right fun ⟨q, hq, h⟩ => ⟨q, List.mem_cons_of_mem _ hq, h⟩

/-- The small letter of a capital is not below the letter a. -/
theorem le_capitalShift (n : Nat) :
    capitalShift capitalRuns n = 0 ∨ 0x61 ≤ n + capitalShift capitalRuns n := by
  have hall : ∀ r ∈ capitalRuns, 0x61 ≤ r.first + r.shift := by decide +kernel
  refine (capitalShift_cases capitalRuns n).imp_right ?_
  rintro ⟨r, hr, hfirst, hshift⟩
  have hlow := hall r hr
  omega

/-- The character with a number has it, unless it is the first one of all. -/
theorem toNat_ofNat_cases (n : Nat) : (Char.ofNat n).toNat = n ∨ (Char.ofNat n).toNat = 0 := by
  by_cases h : n.isValidChar
  · rw [Char.ofNat, dif_pos h]
    exact .inl rfl
  · rw [Char.ofNat, dif_neg h]
    exact .inr rfl

theorem lowerChar_eq_iff {x c : Char} (hx : Unshifted x) : lowerChar c = x ↔ c = x := by
  constructor
  · rintro rfl
    rcases le_capitalShift c.toNat with hzero | hlow
    · rw [lowerChar, hzero, Int.add_zero, Int.toNat_natCast, Char.ofNat_toNat]
    · have hpos := hx.pos
      have hbelow := hx.below
      rcases toNat_ofNat_cases (c.toNat + capitalShift capitalRuns c.toNat).toNat with h | h
      all_goals
        rw [lowerChar, h] at hpos hbelow
        omega
  · rintro rfl
    rw [lowerChar, hx.noCapital, Int.add_zero, Int.toNat_natCast, Char.ofNat_toNat]

/-- A plain character begins the small-letter form of a text if and only if it begins the text. -/
theorem head?_lower {x : Char} (hx : Unshifted x) (s : String) :
    (lower s).toList.head? = some x ↔ s.toList.head? = some x := by
  have hhigh : ∀ d : Char, 0x61 ≤ d.toNat → d ≠ x := by
    rintro d hd rfl
    exact absurd hx.below (Nat.not_lt.mpr hd)
  rw [lower, String.toList_ofList]
  cases s.toList with
  | nil => rfl
  | cons c rest =>
      have hsigma : 'Σ' ≠ x ∧ 'ς' ≠ x ∧ 'σ' ≠ x :=
        ⟨hhigh _ (by decide), hhigh _ (by decide), hhigh _ (by decide)⟩
      have hdotted : 'İ' ≠ x ∧ 'i' ≠ x := ⟨hhigh _ (by decide), hhigh _ (by decide)⟩
      rw [lowerAfter, lowerBetween, List.head?_cons, Option.some_inj]
      split_ifs with hc hfinal hi
      · simp [hc, hsigma.1, hsigma.2.1]
      · simp [hc, hsigma.1, hsigma.2.2]
      · simp [hi, hdotted.1, hdotted.2]
      · rw [List.singleton_append, List.head?_cons, Option.some_inj]
        exact lowerChar_eq_iff hx

/-- The small-letter form of a text is not empty unless the text is. -/
theorem toList_lower_ne_nil {s : String} (h : s.toList ≠ []) : (lower s).toList ≠ [] := by
  obtain ⟨c, rest, hs⟩ := List.exists_cons_of_ne_nil h
  rw [lower, String.toList_ofList, hs, lowerAfter, lowerBetween]
  split_ifs <;> exact List.cons_ne_nil _ _

end EnumHelpers.Text
