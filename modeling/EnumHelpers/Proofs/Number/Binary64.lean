import EnumHelpers.Number.Fraction
import Mathlib.Algebra.Order.Field.Basic
import Mathlib.Algebra.Order.Field.Power
import Mathlib.Tactic.Linarith
import Mathlib.Tactic.Ring

/-!
# Proofs — the range of double precision

A quotient is rounded to a number with a mantissa of 53 bits, and what comes to `2 ^ 1024` or more
is out of range.  The greatest number in range is `2 ^ 1024 - 2 ^ 971`, so that a quotient is out of
range from half a step above it on, where the tie goes to the even mantissa (`overflowBound`).

* `toRat?_ofRatio_eq_none_iff`, `binaryValue_eq_error_iff`: the numbers that are out of range.
-/

namespace EnumHelpers.Number
namespace Binary64

/-- The least number that is rounded out of range. -/
def overflowBound : Rat := 2 ^ (1024 : Int) - 2 ^ (970 : Int)

variable {num den : Nat}

/-! ### Powers of two -/

theorem scaleDown_snd_ne_zero (num : Nat) (hd : den ≠ 0) (e : Int) :
    (scaleDown num den e).2 ≠ 0 := by
  cases e with
  | ofNat k => exact Nat.mul_ne_zero hd (Nat.pow_pos two_pos).ne'
  | negSucc k => exact hd

/-- A quotient that is scaled down is divided by the power of two. -/
theorem scaleDown_eq (num den : Nat) (e : Int) :
    ((scaleDown num den e).1 : Rat) / (scaleDown num den e).2 = num / den / 2 ^ e := by
  cases e with
  | ofNat k =>
      simp only [scaleDown, Nat.pow_eq, Int.ofNat_eq_natCast, zpow_natCast, Nat.cast_mul,
        Nat.cast_pow, Nat.cast_ofNat, div_div]
  | negSucc k =>
      simp only [scaleDown, Nat.pow_eq, zpow_negSucc, Nat.cast_mul, Nat.cast_pow, Nat.cast_ofNat,
        div_inv_eq_mul, div_mul_eq_mul_div]

/-- A natural number lies between two powers of two. -/
theorem log2_bounds {n : Nat} (hn : n ≠ 0) :
    (2 : Rat) ^ (n.log2 : Int) ≤ n ∧ (n : Rat) < 2 ^ ((n.log2 : Int) + 1) := by
  have hlow : 2 ^ n.log2 ≤ n := Nat.log2_self_le hn
  have hhigh : n < 2 ^ (n.log2 + 1) := Nat.lt_log2_self
  constructor
  · rw [zpow_natCast]
    exact_mod_cast hlow
  · rw [← Nat.cast_succ, zpow_natCast]
    exact_mod_cast hhigh

/-- The binary logarithm of a quotient. -/
theorem floorLog2_bounds (hn : num ≠ 0) (hd : den ≠ 0) :
    (2 : Rat) ^ floorLog2 num den ≤ num / den ∧
      (num : Rat) / den < 2 ^ (floorLog2 num den + 1) := by
  have hden : (0 : Rat) < den := by exact_mod_cast Nat.pos_of_ne_zero hd
  have htwo : (2 : Rat) ≠ 0 := two_ne_zero
  obtain ⟨hnlow, hnhigh⟩ := log2_bounds hn
  obtain ⟨hdlow, hdhigh⟩ := log2_bounds hd
  -- the logarithms of both parts leave two candidates
  have hlow : (2 : Rat) ^ ((num.log2 : Int) - den.log2 - 1) < num / den := by
    rw [lt_div_iff₀ hden]
    calc (2 : Rat) ^ ((num.log2 : Int) - den.log2 - 1) * den
        < 2 ^ ((num.log2 : Int) - den.log2 - 1) * 2 ^ ((den.log2 : Int) + 1) := by gcongr
      _ = 2 ^ (num.log2 : Int) := by
          rw [← zpow_add₀ htwo]
          congr 1
          omega
      _ ≤ num := hnlow
  have hhigh : (num : Rat) / den < 2 ^ ((num.log2 : Int) - den.log2 + 1) := by
    rw [div_lt_iff₀ hden]
    calc (num : Rat) < 2 ^ ((num.log2 : Int) + 1) := hnhigh
      _ = 2 ^ ((num.log2 : Int) - den.log2 + 1) * 2 ^ (den.log2 : Int) := by
          rw [← zpow_add₀ htwo]
          congr 1
          omega
      _ ≤ 2 ^ ((num.log2 : Int) - den.log2 + 1) * den := by gcongr
  have hscaled := scaleDown_eq num den ((num.log2 : Int) - den.log2)
  have hpos : (0 : Rat) < (scaleDown num den ((num.log2 : Int) - den.log2)).2 := by
    exact_mod_cast Nat.pos_of_ne_zero (scaleDown_snd_ne_zero num hd _)
  have hpow : (0 : Rat) < 2 ^ ((num.log2 : Int) - den.log2) := zpow_pos two_pos _
  rw [floorLog2]
  dsimp only
  split
  · rename_i h
    refine ⟨?_, hhigh⟩
    have h : (1 : Rat) ≤ num / den / 2 ^ ((num.log2 : Int) - den.log2) := by
      rw [← hscaled, one_le_div hpos]
      exact_mod_cast h
    rwa [one_le_div hpow] at h
  · rename_i h
    rw [sub_add_cancel]
    refine ⟨hlow.le, ?_⟩
    have h : (num : Rat) / den / 2 ^ ((num.log2 : Int) - den.log2) < 1 := by
      rw [← hscaled, div_lt_one hpos]
      exact_mod_cast Nat.lt_of_not_le h
    rwa [div_lt_one hpow] at h

/-! ### Rounding -/

theorem roundQuotient_bounds (num den : Nat) :
    num / den ≤ roundQuotient num den ∧ roundQuotient num den ≤ num / den + 1 := by
  rw [roundQuotient]
  split_ifs <;> omega

/-- An even number is reached from half a step below it on. -/
theorem even_le_roundQuotient_iff (hd : den ≠ 0) {k : Nat} (hk : k ≠ 0) :
    2 * k ≤ roundQuotient num den ↔ (4 * k - 1) * den ≤ 2 * num := by
  have hdiv := Nat.div_add_mod num den
  have hmod := Nat.mod_lt num (Nat.pos_of_ne_zero hd)
  rw [roundQuotient]
  generalize num / den = q at *
  generalize num % den = r at *
  have hmul : ∀ {a b : Nat}, a ≤ b → a * den ≤ b * den := fun h => Nat.mul_le_mul_right den h
  rw [Nat.mul_comm den q] at hdiv
  rcases Nat.lt_trichotomy q (2 * k - 1) with hq | hq | hq
  · -- a whole step or more below
    have hfar : (2 * q + 2 + 1) * den ≤ (4 * k - 1) * den := hmul (by omega)
    have hsplit : (2 * q + 2 + 1) * den = 2 * (q * den) + 3 * den := by ring
    split_ifs <;> omega
  · have hsplit : (4 * k - 1) * den = 2 * (q * den) + den := by
      rw [show 4 * k - 1 = 2 * q + 1 by omega]
      ring
    split_ifs <;> omega
  · have hnear : (4 * k - 1) * den ≤ 2 * q * den := hmul (by omega)
    rw [Nat.mul_assoc] at hnear
    split_ifs <;> omega

/-- The exponent of the number nearest to a quotient, before the mantissa is rounded. -/
def exponentOf (num den : Nat) : Int := max (floorLog2 num den - 52) leastExponent

/-- The rounded mantissa of the number nearest to a quotient. -/
def mantissaOf (num den : Nat) : Nat :=
  let scaled := scaleDown num den (exponentOf num den)
  roundQuotient scaled.1 scaled.2

/-- The number nearest to a quotient: its exponent goes up by one when the mantissa is rounded up to
the next power of two. -/
theorem ofRatio_of_ne_zero (negative : Bool) (hn : num ≠ 0) : ofRatio negative num den =
    let p := if mantissaOf num den = 2 ^ 53 then (2 ^ 52, exponentOf num den + 1)
      else (mantissaOf num den, exponentOf num den)
    if overflowExponent < p.2 + precision ∧ 2 ^ 52 ≤ p.1 then .infinite negative
    else .finite negative p.1 p.2 :=
  if_neg hn

/-- A number is out of range when its exponent is. -/
theorem toRat?_ofRatio (negative : Bool) (hn : num ≠ 0) :
    (ofRatio negative num den).toRat? = none ↔
      971 < exponentOf num den + (if mantissaOf num den = 2 ^ 53 then 1 else 0) ∧
        2 ^ 52 ≤ mantissaOf num den := by
  have hrange : ∀ {P : Prop} [Decidable P] {m : Nat} {e : Int},
      (if P then Binary64.infinite negative else .finite negative m e).toRat? = none ↔ P := by
    intro P _ m e
    split <;> simp_all [toRat?]
  rw [ofRatio_of_ne_zero negative hn]
  generalize mantissaOf num den = m
  generalize exponentOf num den = e
  simp only [precision, overflowExponent]
  by_cases hm : m = 2 ^ 53
  · simp only [hm, if_true]
    rw [hrange]
    omega
  · simp only [hm, if_false]
    rw [hrange]
    omega

/-- What a mantissa is rounded from has at most 53 bits before the point. -/
theorem scaled_lt (hn : num ≠ 0) (hd : den ≠ 0) :
    (scaleDown num den (exponentOf num den)).1 <
      2 ^ 53 * (scaleDown num den (exponentOf num den)).2 := by
  have hpos : (0 : Rat) < (scaleDown num den (exponentOf num den)).2 := by
    exact_mod_cast Nat.pos_of_ne_zero (scaleDown_snd_ne_zero num hd _)
  have h : (num : Rat) / den / 2 ^ exponentOf num den < 2 ^ (53 : Int) := by
    rw [div_lt_iff₀ (zpow_pos two_pos _), ← zpow_add₀ two_ne_zero]
    refine (floorLog2_bounds hn hd).2.trans_le (zpow_le_zpow_right₀ one_le_two ?_)
    rw [exponentOf]
    omega
  rw [← scaleDown_eq num den (exponentOf num den), div_lt_iff₀ hpos] at h
  exact_mod_cast h

theorem mantissaOf_le (hn : num ≠ 0) (hd : den ≠ 0) : mantissaOf num den ≤ 2 ^ 53 := by
  have hpos := Nat.pos_of_ne_zero (scaleDown_snd_ne_zero num hd (exponentOf num den))
  have hlt := scaled_lt hn hd
  rw [← Nat.div_lt_iff_lt_mul hpos] at hlt
  exact (roundQuotient_bounds _ _).2.trans hlt

/-- What the mantissa of a normal number is rounded from has its leading bit set. -/
theorem le_scaled (hn : num ≠ 0) (hd : den ≠ 0) (hk : -1022 ≤ floorLog2 num den) :
    exponentOf num den = floorLog2 num den - 52 ∧
      2 ^ 52 * (scaleDown num den (exponentOf num den)).2 ≤
        (scaleDown num den (exponentOf num den)).1 := by
  have hexponent : exponentOf num den = floorLog2 num den - 52 := by
    rw [exponentOf, leastExponent]
    omega
  have hpos : (0 : Rat) < (scaleDown num den (exponentOf num den)).2 := by
    exact_mod_cast Nat.pos_of_ne_zero (scaleDown_snd_ne_zero num hd _)
  have h : (2 : Rat) ^ (52 : Int) ≤ num / den / 2 ^ exponentOf num den := by
    rw [le_div_iff₀ (zpow_pos two_pos _), ← zpow_add₀ two_ne_zero]
    refine le_of_eq_of_le ?_ (floorLog2_bounds hn hd).1
    congr 1
    omega
  rw [← scaleDown_eq num den (exponentOf num den), le_div_iff₀ hpos] at h
  exact ⟨hexponent, by exact_mod_cast h⟩

/-- The mantissa of a normal number. -/
theorem le_mantissaOf (hn : num ≠ 0) (hd : den ≠ 0) (hk : -1022 ≤ floorLog2 num den) :
    2 ^ 52 ≤ mantissaOf num den := by
  have hpos := Nat.pos_of_ne_zero (scaleDown_snd_ne_zero num hd (exponentOf num den))
  have hlow := (le_scaled hn hd hk).2
  rw [← Nat.le_div_iff_mul_le hpos] at hlow
  exact hlow.trans (roundQuotient_bounds _ _).1

theorem overflowBound_bounds :
    (2 : Rat) ^ (1023 : Int) ≤ overflowBound ∧ overflowBound ≤ 2 ^ (1024 : Int) := by
  have hdouble : (2 : Rat) ^ (1024 : Int) = 2 * 2 ^ (1023 : Int) := by
    rw [← zpow_one_add₀ two_ne_zero]
    rfl
  have hle : (2 : Rat) ^ (970 : Int) ≤ 2 ^ (1023 : Int) :=
    zpow_le_zpow_right₀ one_le_two (by decide)
  have hpos : (0 : Rat) < 2 ^ (970 : Int) := zpow_pos two_pos _
  refine ⟨?_, sub_le_self _ hpos.le⟩
  rw [overflowBound, hdouble, two_mul, le_sub_iff_add_le]
  exact add_le_add_right hle _

theorem overflowBound_eq :
    overflowBound = ((4 * 2 ^ 52 - 1 : Nat) : Rat) / 2 * 2 ^ (971 : Int) := by
  have hstep : (2 : Rat) ^ (971 : Int) = 2 * 2 ^ (970 : Int) := by
    rw [← zpow_one_add₀ two_ne_zero]
    rfl
  have htop : (2 : Rat) ^ (1024 : Int) = 2 ^ 54 * 2 ^ (970 : Int) := by
    rw [← zpow_natCast, ← zpow_add₀ two_ne_zero]
    rfl
  rw [overflowBound, htop, hstep]
  generalize (2 : Rat) ^ (970 : Int) = a
  push_cast
  ring

/-- Just below the first power of two out of range, the mantissa is rounded up from the bound on. -/
theorem mantissaOf_eq_iff (hn : num ≠ 0) (hd : den ≠ 0) (hk : floorLog2 num den = 1023) :
    mantissaOf num den = 2 ^ 53 ↔ overflowBound ≤ num / den := by
  have hexponent : exponentOf num den = 971 := by
    rw [(le_scaled hn hd (by omega)).1, hk]
    rfl
  have hsnd := scaleDown_snd_ne_zero num hd (exponentOf num den)
  have hscaled := scaleDown_eq num den (exponentOf num den)
  have hpow : (0 : Rat) < 2 ^ (971 : Int) := zpow_pos two_pos _
  have hm := mantissaOf_le hn hd
  rw [hexponent] at hsnd hscaled
  have hpos : (0 : Rat) < (scaleDown num den 971).2 := by
    exact_mod_cast Nat.pos_of_ne_zero hsnd
  calc mantissaOf num den = 2 ^ 53
      ↔ 2 * 2 ^ 52 ≤ mantissaOf num den := by omega
    _ ↔ (4 * 2 ^ 52 - 1) * (scaleDown num den 971).2 ≤ 2 * (scaleDown num den 971).1 := by
        rw [mantissaOf, hexponent]
        exact even_le_roundQuotient_iff hsnd (by decide)
    _ ↔ ((4 * 2 ^ 52 - 1 : Nat) : Rat) / 2 ≤
          (scaleDown num den 971).1 / (scaleDown num den 971).2 := by
        rw [le_div_iff₀ hpos, div_mul_eq_mul_div, div_le_iff₀ two_pos, mul_comm _ (2 : Rat)]
        exact_mod_cast Iff.rfl
    _ ↔ overflowBound ≤ num / den := by
        rw [hscaled, le_div_iff₀ hpow, overflowBound_eq]

/-- **A quotient is out of range from half a step above the greatest number on.** -/
theorem toRat?_ofRatio_eq_none_iff (negative : Bool) (num : Nat) (hd : den ≠ 0) :
    (ofRatio negative num den).toRat? = none ↔ overflowBound ≤ num / den := by
  obtain ⟨hlower, hupper⟩ := overflowBound_bounds
  rcases eq_or_ne num 0 with rfl | hn
  · have hpos : (0 : Rat) < overflowBound := (zpow_pos two_pos _).trans_le hlower
    rw [ofRatio, if_pos rfl, Nat.cast_zero, zero_div]
    refine ⟨nofun, fun h => (hpos.not_ge h).elim⟩
  obtain ⟨hlow, hhigh⟩ := floorLog2_bounds hn hd
  rw [toRat?_ofRatio negative hn]
  rcases Int.lt_trichotomy (floorLog2 num den) 1023 with hk | hk | hk
  · have hexponent : exponentOf num den ≤ 970 := by
      rw [exponentOf, leastExponent]
      omega
    have hsmall : (num : Rat) / den < 2 ^ (1023 : Int) :=
      hhigh.trans_le (zpow_le_zpow_right₀ one_le_two (by omega))
    refine ⟨fun h => ?_, fun h => absurd (hlower.trans h) (not_le.mpr hsmall)⟩
    split at h <;> omega
  · have hexponent := (le_scaled hn hd (by omega)).1
    have hm := le_mantissaOf hn hd (by omega)
    rw [← mantissaOf_eq_iff hn hd hk]
    split <;> omega
  · have hexponent := (le_scaled hn hd (by omega)).1
    have hm := le_mantissaOf hn hd (by omega)
    have hlarge : (2 : Rat) ^ (1024 : Int) ≤ num / den :=
      (zpow_le_zpow_right₀ one_le_two (by omega)).trans hlow
    refine ⟨fun _ => hupper.trans hlarge, fun _ => ⟨?_, hm⟩⟩
    split <;> omega

end Binary64

/-- The parts of a fraction are its mantissa and its power of two. -/
theorem fractionOf_eq (m : Nat) (e : Int) :
    ((Binary64.fractionOf m e).1 : Rat) / (Binary64.fractionOf m e).2 = m * 2 ^ e := by
  cases e with
  | ofNat k =>
      simp only [Binary64.fractionOf, Nat.pow_eq, Int.ofNat_eq_natCast, zpow_natCast, Nat.cast_mul,
        Nat.cast_pow, Nat.cast_ofNat, Nat.cast_one, div_one]
  | negSucc k =>
      simp only [Binary64.fractionOf, Nat.pow_eq, zpow_negSucc, Nat.cast_pow, Nat.cast_ofNat,
        div_eq_mul_inv]

theorem fractionOf_snd_ne_zero (m : Nat) (e : Int) : (Binary64.fractionOf m e).2 ≠ 0 := by
  cases e with
  | ofNat k => exact one_ne_zero
  | negSucc k => exact (Nat.pow_pos two_pos).ne'

/-- A positive number lies between the powers of two around its highest bit. -/
theorem mul_zpow_bounds {m : Nat} (hm : m ≠ 0) (e : Int) :
    (2 : Rat) ^ (e + m.log2) ≤ m * 2 ^ e ∧ (m : Rat) * 2 ^ e < 2 ^ (e + (m.log2 + 1)) := by
  obtain ⟨hlow, hhigh⟩ := Binary64.log2_bounds hm
  have hpow : (0 : Rat) < 2 ^ e := zpow_pos two_pos _
  rw [zpow_add₀ two_ne_zero, zpow_add₀ two_ne_zero, mul_comm (m : Rat)]
  exact ⟨mul_le_mul_of_nonneg_left hlow hpow.le, mul_lt_mul_of_pos_left hhigh hpow⟩

/-- **A mantissa and a power of two have a double-precision value** up to half a step above the
greatest number. -/
theorem binaryValue_eq_error_iff {m : Nat} {e : Int} {fault : Fault} :
    binaryValue m e = .error fault ↔
      fault = .outOfRange ∧ Binary64.overflowBound ≤ (m : Rat) * 2 ^ e := by
  obtain ⟨hlower, hupper⟩ := Binary64.overflowBound_bounds
  rw [binaryValue, Binary64.leastExponent, Binary64.overflowExponent]
  dsimp only
  split
  · rename_i hsmall
    have hbelow : (m : Rat) * 2 ^ e < 2 ^ (1023 : Int) := by
      rcases eq_or_ne m 0 with rfl | hm
      · rw [Nat.cast_zero, zero_mul]
        exact zpow_pos two_pos _
      · exact (mul_zpow_bounds hm e).2.trans_le (zpow_le_zpow_right₀ one_le_two (by omega))
    exact ⟨nofun, fun h => absurd (hlower.trans h.2) (not_le.mpr hbelow)⟩
  · rename_i hsmall
    rw [not_or] at hsmall
    split
    · have habove : (2 : Rat) ^ (1024 : Int) ≤ m * 2 ^ e :=
        (zpow_le_zpow_right₀ one_le_two (by omega)).trans (mul_zpow_bounds hsmall.1 e).1
      refine ⟨?_, ?_⟩
      · rintro ⟨⟩
        exact ⟨rfl, hupper.trans habove⟩
      · rintro ⟨rfl, -⟩
        rfl
    · have hrange := Binary64.toRat?_ofRatio_eq_none_iff false
        (Binary64.fractionOf m e).1 (fractionOf_snd_ne_zero m e)
      rw [fractionOf_eq] at hrange
      rw [← hrange]
      generalize (Binary64.ofRatio false _ _).toRat? = o
      cases o with
      | none =>
          refine ⟨?_, ?_⟩
          · rintro ⟨⟩
            exact ⟨rfl, rfl⟩
          · rintro ⟨rfl, -⟩
            rfl
      | some q => exact ⟨nofun, fun h => nomatch h.2⟩

end EnumHelpers.Number
