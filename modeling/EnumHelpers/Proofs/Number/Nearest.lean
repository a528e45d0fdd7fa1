import EnumHelpers.Proofs.Number.Binary64
import Mathlib.Algebra.Order.Ring.Abs

/-!
# Proofs — the nearest number of double precision

A quotient that is in range is rounded to a number of double precision, and to none that is farther
away than another one.  A number that double precision holds (`Binary64.Holds`) is therefore
rounded to itself.

The numbers of one exponent lie on a grid, on which the quotient is rounded to the nearest point.
A number of a smaller exponent may lie between two points of the grid, but then it is smaller than
the least mantissa with its leading bit set, which is a point of the grid below the quotient.

* `nearest_of_binaryValue`: the value of a mantissa and a power of two is the nearest one.
* `binaryValue_eq_ok_iff`: it is exact if and only if double precision holds it.
-/

namespace EnumHelpers.Number
namespace Binary64

/-- Zero or a positive number that double precision holds: a mantissa of at most 53 bits times a
power of two in range. -/
def Holds (x : Rat) : Prop :=
  ∃ (m : Nat) (e : Int), m < 2 ^ 53 ∧ -1074 ≤ e ∧ e ≤ 971 ∧ x = m * 2 ^ e

/-- A number that double precision holds, and none is nearer to the given one. -/
structure Nearest (q v : Rat) : Prop where
  holds : Holds q
  le : ∀ x, Holds x → |q - v| ≤ |x - v|

variable {num den : Nat} {q v x : Rat}

theorem holds_zero : Holds 0 := ⟨0, 0, by decide, by decide, by decide, by simp⟩

theorem Holds.nonneg (h : Holds x) : 0 ≤ x := by
  obtain ⟨m, e, -, -, -, rfl⟩ := h
  exact mul_nonneg m.cast_nonneg (zpow_nonneg zero_le_two e)

/-- The nearest number is the given one itself if and only if double precision holds that. -/
theorem Nearest.eq_iff (h : Nearest q v) : q = v ↔ Holds v := by
  constructor
  · rintro rfl
    exact h.holds
  · intro hv
    have hle := h.le v hv
    rw [sub_self, abs_zero] at hle
    exact sub_eq_zero.mp (abs_nonpos_iff.mp hle)

/-- A positive number that is held is at least the least one. -/
theorem Holds.le_of_pos (h : Holds x) (hx : 0 < x) : 2 ^ (-1074 : Int) ≤ x := by
  obtain ⟨m, e, -, he, -, rfl⟩ := h
  have hm : m ≠ 0 := by
    rintro rfl
    exact absurd hx (by rw [Nat.cast_zero, zero_mul]; exact lt_irrefl 0)
  calc (2 : Rat) ^ (-1074 : Int)
      ≤ 1 * 2 ^ e := by
        rw [one_mul]
        exact zpow_le_zpow_right₀ one_le_two he
    _ ≤ m * 2 ^ e := by
        gcongr
        exact_mod_cast Nat.one_le_iff_ne_zero.mpr hm

/-- A number that is held is in range. -/
theorem Holds.lt_overflowBound (h : Holds x) : x < overflowBound := by
  obtain ⟨m, e, hm, -, he, rfl⟩ := h
  rw [overflowBound_eq]
  have hmantissa : (m : Rat) < ((4 * 2 ^ 52 - 1 : Nat) : Rat) / 2 := by
    rw [lt_div_iff₀ two_pos]
    exact_mod_cast (show m * 2 < 4 * 2 ^ 52 - 1 by omega)
  calc (m : Rat) * 2 ^ e
      ≤ m * 2 ^ (971 : Int) := by
        gcongr
        exact one_le_two
    _ < ((4 * 2 ^ 52 - 1 : Nat) : Rat) / 2 * 2 ^ (971 : Int) :=
        mul_lt_mul_of_pos_right hmantissa (zpow_pos two_pos _)

/-! ### The grid of an exponent -/

/-- No natural number is nearer to a quotient than the rounded one. -/
theorem roundQuotient_nearest (hd : den ≠ 0) (k : Nat) :
    |(roundQuotient num den : Rat) - num / den| ≤ |(k : Rat) - num / den| := by
  have hpos : (0 : Rat) < den := by exact_mod_cast Nat.pos_of_ne_zero hd
  -- both distances times the denominator are distances of natural numbers
  have hscale : ∀ n : Nat, |(n : Rat) - num / den| = |(n * den : Int) - num| / den := by
    intro n
    rw [sub_div' hpos.ne', abs_div, abs_of_pos hpos]
    push_cast
    rfl
  rw [hscale, hscale, div_le_div_iff_of_pos_right hpos]
  norm_cast
  have hdiv := Nat.div_add_mod num den
  have hmod := Nat.mod_lt num (Nat.pos_of_ne_zero hd)
  rw [Nat.mul_comm] at hdiv
  have hside : k * den ≤ num / den * den ∨ num / den * den + den ≤ k * den := by
    rcases Nat.lt_or_ge (num / den) k with h | h
    · exact .inr (Nat.succ_mul _ _ ▸ Nat.mul_le_mul_right den h)
    · exact .inl (Nat.mul_le_mul_right den h)
  rw [roundQuotient]
  generalize num / den = n at *
  generalize num % den = r at *
  split_ifs <;> grind

/-- A number that is held lies on the grid of an exponent, or below the least mantissa of that
exponent with its leading bit set; the latter only above the least exponent. -/
theorem Holds.grid (h : Holds x) (e : Int) :
    (∃ k : Nat, x = k * 2 ^ e) ∨ (leastExponent < e ∧ x < (2 ^ 52 : Nat) * 2 ^ e) := by
  obtain ⟨m, e', hm, hlow, -, rfl⟩ := h
  rcases Int.lt_or_le e' e with he | he
  · refine .inr ⟨by rw [leastExponent]; omega, ?_⟩
    calc (m : Rat) * 2 ^ e'
        < 2 ^ (53 : Int) * 2 ^ e' := by
          gcongr
          exact_mod_cast hm
      _ = 2 ^ (53 + e') := (zpow_add₀ two_ne_zero _ _).symm
      _ ≤ 2 ^ (52 + e) := zpow_le_zpow_right₀ one_le_two (by omega)
      _ = (2 ^ 52 : Nat) * 2 ^ e := by
          rw [zpow_add₀ two_ne_zero]
          norm_cast
  · refine .inl ⟨m * 2 ^ (e' - e).toNat, ?_⟩
    rw [Nat.cast_mul, Nat.cast_pow, Nat.cast_ofNat, mul_assoc, ← zpow_natCast, Int.toNat_of_nonneg
      (by omega), ← zpow_add₀ two_ne_zero, sub_add_cancel]

/-- The exact value of a finite number is its mantissa times its power of two. -/
theorem toRat?_finite (m : Nat) (e : Int) :
    (finite false m e).toRat? = some ((m : Rat) * 2 ^ e) := by
  cases e with
  | ofNat k =>
      simp only [toRat?, Bool.false_eq_true, if_false, Nat.pow_eq, Int.ofNat_eq_natCast,
        zpow_natCast, Nat.cast_mul, Nat.cast_pow, Nat.cast_ofNat]
  | negSucc k =>
      simp only [toRat?, Bool.false_eq_true, if_false, Nat.pow_eq, Rat.mkRat_eq_div, zpow_negSucc,
        Int.cast_natCast, Nat.cast_pow, Nat.cast_ofNat, div_eq_mul_inv]

/-! ### Rounding -/

/-- A quotient in range is rounded to a point of the grid of its exponent, and double precision
holds it. -/
theorem toRat?_ofRatio_eq_some (hn : num ≠ 0) (hd : den ≠ 0)
    (h : (ofRatio false num den).toRat? = some q) :
    q = mantissaOf num den * 2 ^ exponentOf num den ∧ Holds q := by
  have hm := mantissaOf_le hn hd
  have hlow : -1074 ≤ exponentOf num den := le_max_right _ _
  have hrange := (toRat?_ofRatio false hn).not.mp (h ▸ Option.some_ne_none q)
  -- a mantissa without its leading bit has the least exponent
  have hsmall : mantissaOf num den < 2 ^ 52 → exponentOf num den ≤ 971 := by
    intro hm
    by_contra he
    rw [exponentOf, leastExponent] at he
    exact absurd (le_mantissaOf hn hd (by omega)) (not_le.mpr hm)
  rw [ofRatio_of_ne_zero false hn] at h
  by_cases hcarry : mantissaOf num den = 2 ^ 53
  · rw [if_pos hcarry] at hrange h
    rw [if_neg (by rw [overflowExponent, precision]; omega), toRat?_finite] at h
    have h := (Option.some.inj h).symm
    have hvalue : q = mantissaOf num den * 2 ^ exponentOf num den := by
      rw [h, hcarry, zpow_add_one₀ two_ne_zero]
      push_cast
      ring
    exact ⟨hvalue, 2 ^ 52, exponentOf num den + 1, by decide, by omega, by omega, h⟩
  · rw [if_neg hcarry] at hrange h
    rw [if_neg (by rw [overflowExponent, precision]; omega), toRat?_finite] at h
    have h := (Option.some.inj h).symm
    exact ⟨h, mantissaOf num den, exponentOf num den, by omega, hlow, by omega, h⟩

/-- **A quotient in range is rounded to the nearest number** that double precision holds. -/
theorem nearest_of_ofRatio (hd : den ≠ 0) (h : (ofRatio false num den).toRat? = some q) :
    Nearest q (num / den) := by
  rcases eq_or_ne num 0 with rfl | hn
  · rw [ofRatio, if_pos rfl, toRat?_finite] at h
    have hq : q = 0 := by
      rw [← Option.some.inj h, Nat.cast_zero, zero_mul]
    subst hq
    exact ⟨holds_zero, fun x _ => by simp⟩
  obtain ⟨hq, hholds⟩ := toRat?_ofRatio_eq_some hn hd h
  refine ⟨hholds, fun x hx => ?_⟩
  have hpow : (0 : Rat) < 2 ^ exponentOf num den := zpow_pos two_pos _
  -- on the grid, the distance of the mantissas
  have hgrid : ∀ k : Nat, |q - num / den| ≤ |(k : Rat) * 2 ^ exponentOf num den - num / den| := by
    intro k
    have hscale : ∀ n : Nat, |(n : Rat) * 2 ^ exponentOf num den - num / den| =
        |(n : Rat) - (scaleDown num den (exponentOf num den)).1 /
          (scaleDown num den (exponentOf num den)).2| * 2 ^ exponentOf num den := by
      intro n
      rw [scaleDown_eq, ← abs_of_pos hpow, ← abs_mul, sub_mul, abs_of_pos hpow,
        div_mul_cancel₀ _ hpow.ne']
    rw [hq, hscale, hscale]
    exact mul_le_mul_of_nonneg_right
      (roundQuotient_nearest (scaleDown_snd_ne_zero num hd _) k) hpow.le
  rcases hx.grid (exponentOf num den) with ⟨k, rfl⟩ | ⟨hleast, hlt⟩
  · exact hgrid k
  · -- the least mantissa with its leading bit set lies between the two
    have hbelow : ((2 ^ 52 : Nat) : Rat) * 2 ^ exponentOf num den ≤ num / den := by
      have hexponent : exponentOf num den = floorLog2 num den - 52 := by
        rw [exponentOf] at hleast ⊢
        omega
      calc ((2 ^ 52 : Nat) : Rat) * 2 ^ exponentOf num den
          = 2 ^ (52 + exponentOf num den) := by
            rw [zpow_add₀ two_ne_zero]
            norm_cast
        _ = 2 ^ floorLog2 num den := by rw [hexponent, add_sub_cancel]
        _ ≤ num / den := (floorLog2_bounds hn hd).1
    calc |q - num / den|
        ≤ |((2 ^ 52 : Nat) : Rat) * 2 ^ exponentOf num den - num / den| := hgrid (2 ^ 52)
      _ = num / den - (2 ^ 52 : Nat) * 2 ^ exponentOf num den := by
          rw [abs_of_nonpos (sub_nonpos.mpr hbelow), neg_sub]
      _ ≤ num / den - x := sub_le_sub_left hlt.le _
      _ = |x - num / den| := by
          rw [abs_of_nonpos (sub_nonpos.mpr (hlt.le.trans hbelow)), neg_sub]

end Binary64

/-! ### Mantissas and powers of two -/

open Binary64

/-- **The value of a mantissa and a power of two** is the nearest number that double precision
holds. -/
theorem nearest_of_binaryValue {m : Nat} {e : Int} {q : Rat} (h : binaryValue m e = .ok q) :
    Nearest q (m * 2 ^ e) := by
  rw [binaryValue, leastExponent, overflowExponent] at h
  dsimp only at h
  split at h
  · rename_i hsmall
    cases h
    refine ⟨holds_zero, fun x hx => ?_⟩
    -- the least positive number is farther away than zero
    have hbelow : (m : Rat) * 2 ^ e ≤ 2 ^ (-1075 : Int) := by
      rcases eq_or_ne m 0 with rfl | hm
      · rw [Nat.cast_zero, zero_mul]
        exact zpow_nonneg zero_le_two _
      · exact (mul_zpow_bounds hm e).2.le.trans (zpow_le_zpow_right₀ one_le_two (by omega))
    have hdouble : (2 : Rat) ^ (-1074 : Int) = 2 ^ (-1075 : Int) + 2 ^ (-1075 : Int) := by
      rw [← two_mul, ← zpow_one_add₀ two_ne_zero]
      rfl
    rcases hx.nonneg.eq_or_lt with rfl | hpos
    · exact le_refl _
    · have hleast := hx.le_of_pos hpos
      rw [zero_sub, abs_neg, abs_of_nonneg (by positivity)]
      exact le_trans (by linarith) (le_abs_self _)
  · split at h
    · cases h
    · have hvalue : (ofRatio false (fractionOf m e).1 (fractionOf m e).2).toRat? = some q := by
        cases ho : (ofRatio false (fractionOf m e).1 (fractionOf m e).2).toRat? with
        | none =>
            rw [ho] at h
            cases h
        | some q =>
            rw [ho] at h
            cases h
            rfl
      have hnearest := nearest_of_ofRatio (fractionOf_snd_ne_zero m e) hvalue
      rwa [fractionOf_eq] at hnearest

/-- **A mantissa and a power of two have an exact value** if and only if double precision holds
it. -/
theorem binaryValue_eq_ok_iff {m : Nat} {e : Int} :
    binaryValue m e = .ok (m * 2 ^ e) ↔ Holds (m * 2 ^ e) := by
  cases h : binaryValue m e with
  | ok q =>
      rw [Except.ok.injEq]
      exact (nearest_of_binaryValue h).eq_iff
  | error fault =>
      obtain ⟨-, hbound⟩ := binaryValue_eq_error_iff.mp h
      exact ⟨nofun, fun hx => absurd hbound (not_le.mpr hx.lt_overflowBound)⟩

end EnumHelpers.Number
