import EnumHelpers.Number.Bits
import Mathlib.Data.Int.Bitwise
import Mathlib.Data.Rat.Floor

/-!
# Proofs — bits

The bits of an integer in infinite two's complement: the bit with number `i` says whether the
integer, divided by `2 ^ i` and rounded down, is odd.  An integer is known by its bits
(`eq_of_bit_eq`), and the bitwise operations are what they are bit by bit.

* `bit_bitAnd`, `bit_bitOr`, `bit_bitXor`, `bit_bitNot`: the bits of a result.
* `shiftDown_eq`: to drop the lowest bits is to divide by a power of two, rounding down.
* `bitXor_mask`: within the bits below `w`, the complement counts down from the greatest number.
-/

namespace EnumHelpers.Number

/-- The bit of an integer with number `i`. -/
def bit (n : Int) (i : Nat) : Bool := n / 2 ^ i % 2 = 1

/-! ### Bits by sign -/

theorem bit_ofNat (m i : Nat) : bit (.ofNat m) i = m.testBit i := by
  have hfloor : (Int.ofNat m / 2 ^ i % 2 = 1) ↔ m / 2 ^ i % 2 = 1 := by
    rw [Int.ofNat_eq_natCast]
    norm_cast
  rw [bit, Nat.testBit_eq_decide_div_mod_eq, decide_eq_decide.mpr hfloor]

theorem bit_negSucc (m i : Nat) : bit (.negSucc m) i = !m.testBit i := by
  have hpos : (0 : Int) < 2 ^ i := by positivity
  have hfloor : (Int.negSucc m / 2 ^ i % 2 = 1) ↔ ¬ m / 2 ^ i % 2 = 1 := by
    have hdiv : Int.negSucc m / 2 ^ i = -(((m / 2 ^ i : Nat) : Int) + 1) := by
      rw [Int.negSucc_ediv m hpos]
      norm_cast
    rw [hdiv]
    omega
  rw [bit, Nat.testBit_eq_decide_div_mod_eq, decide_eq_decide.mpr hfloor, decide_not]

theorem bit_eq_testBit (n : Int) (i : Nat) : bit n i = n.testBit i := by
  cases n with
  | ofNat m => exact bit_ofNat m i
  | negSucc m => exact bit_negSucc m i

/-- Above its highest bit, a natural number has no bits. -/
theorem exists_testBit_eq_false (m n : Nat) : ∃ i, m.testBit i = false ∧ n.testBit i = false := by
  have below : ∀ k, k ≤ max m n → k.testBit (max m n) = false := fun k hk =>
    Nat.testBit_lt_two_pow (hk.trans_lt Nat.lt_two_pow_self)
  exact ⟨max m n, below m (Nat.le_max_left m n), below n (Nat.le_max_right m n)⟩

/-- **An integer is known by its bits.** -/
theorem eq_of_bit_eq {a b : Int} (h : ∀ i, bit a i = bit b i) : a = b := by
  cases a with
  | ofNat m =>
      cases b with
      | ofNat n =>
          simp only [bit_ofNat] at h
          rw [Nat.eq_of_testBit_eq h]
      | negSucc n =>
          obtain ⟨i, hm, hn⟩ := exists_testBit_eq_false m n
          have hi := h i
          rw [bit_ofNat, bit_negSucc, hm, hn] at hi
          cases hi
  | negSucc m =>
      cases b with
      | ofNat n =>
          obtain ⟨i, hm, hn⟩ := exists_testBit_eq_false m n
          have hi := h i
          rw [bit_ofNat, bit_negSucc, hm, hn] at hi
          cases hi
      | negSucc n =>
          simp only [bit_negSucc] at h
          rw [Nat.eq_of_testBit_eq fun i => Bool.not_inj (h i)]

/-! ### Operations -/

/-- What is left of a number without the bits it shares with another. -/
theorem sub_land_eq_ldiff (m n : Nat) : m - (m &&& n) = m.ldiff n := by
  suffices h : m.ldiff n + (m &&& n) = m by omega
  induction m using Nat.binaryRec generalizing n with
  | zero => simp [Nat.ldiff]
  | bit b m ih =>
      rw [← Nat.bit_bodd_div2 n, Nat.ldiff_bit, Nat.land_bit, Nat.bit_val, Nat.bit_val,
        Nat.bit_val]
      have hrest := ih n.div2
      cases b <;> cases n.bodd <;> simp <;> omega

theorem bitAnd_eq : ∀ a b : Int, bitAnd a b = a.land b
  | .ofNat _, .ofNat _ => rfl
  | .ofNat m, .negSucc n => congrArg Int.ofNat (sub_land_eq_ldiff m n)
  | .negSucc m, .ofNat n => congrArg Int.ofNat (sub_land_eq_ldiff n m)
  | .negSucc _, .negSucc _ => rfl

theorem bitOr_eq : ∀ a b : Int, bitOr a b = a.lor b
  | .ofNat _, .ofNat _ => rfl
  | .ofNat m, .negSucc n => congrArg Int.negSucc (sub_land_eq_ldiff n m)
  | .negSucc m, .ofNat n => congrArg Int.negSucc (sub_land_eq_ldiff m n)
  | .negSucc _, .negSucc _ => rfl

theorem bitXor_eq : ∀ a b : Int, bitXor a b = a.xor b
  | .ofNat _, .ofNat _ | .ofNat _, .negSucc _ | .negSucc _, .ofNat _ | .negSucc _, .negSucc _ => rfl

/-- A bit is set in both. -/
theorem bit_bitAnd (a b : Int) (i : Nat) : bit (bitAnd a b) i = (bit a i && bit b i) := by
  simp only [bit_eq_testBit, bitAnd_eq, Int.testBit_land]

/-- A bit is set in at least one. -/
theorem bit_bitOr (a b : Int) (i : Nat) : bit (bitOr a b) i = (bit a i || bit b i) := by
  simp only [bit_eq_testBit, bitOr_eq, Int.testBit_lor]

/-- A bit is set in exactly one. -/
theorem bit_bitXor (a b : Int) (i : Nat) : bit (bitXor a b) i = (bit a i ^^ bit b i) := by
  simp only [bit_eq_testBit, bitXor_eq, Int.testBit_lxor]

/-- A bit is set where it was not. -/
theorem bit_bitNot (a : Int) (i : Nat) : bit (bitNot a) i = !bit a i := by
  cases a with
  | ofNat m =>
      have hnot : bitNot (.ofNat m) = .negSucc m := by
        rw [bitNot, Int.negSucc_eq, Int.ofNat_eq_natCast]
        omega
      rw [hnot, bit_negSucc, bit_ofNat]
  | negSucc m =>
      have hnot : bitNot (.negSucc m) = .ofNat m := by
        rw [bitNot, Int.negSucc_eq, Int.ofNat_eq_natCast]
        omega
      rw [hnot, bit_negSucc, bit_ofNat, Bool.not_not]

/-- **The lowest bits are dropped by division**, rounding down. -/
theorem shiftDown_eq (n : Int) (k : Nat) : shiftDown n k = ⌊(n : ℚ) / 2 ^ k⌋ := by
  have hfloor : ⌊(n : ℚ) / 2 ^ k⌋ = n / (2 ^ k : Nat) := by
    rw [← Rat.floor_intCast_div_natCast]
    norm_cast
  rw [hfloor, shiftDown]
  split
  · rename_i hlog
    -- the number is shorter than the bits that are dropped
    have hlt : n.natAbs < 2 ^ k := by
      by_cases hn : n.natAbs = 0
      · rw [hn]
        positivity
      · exact (Nat.log2_lt hn).mp hlog
    cases n with
    | ofNat m =>
        rw [Int.ofNat_eq_natCast, if_neg (Int.not_lt.mpr (Int.natCast_nonneg m))]
        exact (Int.ediv_eq_zero_of_lt (Int.natCast_nonneg m) (Int.ofNat_lt.mpr hlt)).symm
    | negSucc m =>
        rw [if_pos (Int.negSucc_lt_zero m), Int.negSucc_ediv m (by positivity)]
        have hzero : (m : Int).ediv (2 ^ k : Nat) = 0 :=
          Int.ediv_eq_zero_of_lt (Int.natCast_nonneg m)
            (Int.ofNat_lt.mpr (Nat.lt_of_succ_lt hlt))
        rw [hzero]
        rfl
  · rw [Int.shiftRight_eq_div_pow]

/-- **The complement within a number of bits** counts down from the greatest number of so many
bits. -/
theorem bitXor_mask {n : Int} {w : Nat} (h₀ : 0 ≤ n) (h : n < 2 ^ w) :
    bitXor n (Nat.pow 2 w - 1 : Nat) = 2 ^ w - 1 - n := by
  obtain ⟨m, rfl⟩ := Int.eq_ofNat_of_zero_le h₀
  have hm : m < 2 ^ w := by exact_mod_cast h
  have hxor : m ^^^ (2 ^ w - 1) = 2 ^ w - (m + 1) := by
    refine Nat.eq_of_testBit_eq fun i => ?_
    rw [Nat.testBit_xor, Nat.testBit_two_pow_sub_one, Nat.testBit_two_pow_sub_succ hm]
    by_cases hi : i < w
    · simp [hi]
    · have hle : 2 ^ w ≤ 2 ^ i := Nat.pow_le_pow_right (by decide) (Nat.le_of_not_lt hi)
      simp [hi, Nat.testBit_lt_two_pow (hm.trans_le hle)]
  show ((m ^^^ (2 ^ w - 1) : Nat) : Int) = _
  rw [hxor]
  push_cast [Nat.succ_le_of_lt hm]
  ring

end EnumHelpers.Number
