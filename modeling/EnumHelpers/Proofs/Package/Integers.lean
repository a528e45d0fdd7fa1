import EnumHelpers.Proofs.Number.Bits
import EnumHelpers.Proofs.Package.Arithmetic

/-!
# Proofs — integer expressions

The integers that expressions of integer and rune literals, `iota`, parentheses and the operators
on integers stand for, told without the evaluator (`Yields`).  Integers have any size.  A quotient
is the exact one rounded toward zero, and a remainder is what the quotient leaves, smaller than the
divisor and with the sign of the dividend.  A shift up multiplies and a shift down divides by a
power of two, rounding down.  The bitwise operators are told bit by bit, a negative integer having
infinitely many leading ones.

An expression stands for no integer if and only if it has a part that stands for none by itself: a
division by zero or a shift by a negative count (`Stuck`).  Every part is evaluated, so there are no
such parts that go unseen.

* `denote_of_yields`: the evaluator comes to the integer that an expression stands for.
* `denote_of_stuck`: it refuses an expression with a part that stands for none.
-/

namespace EnumHelpers.Package
open Constant (BinaryOp UnaryOp IntegerForm RuneForm)
open Number (positional bit)

/-! ### The integers that expressions stand for -/

/-- A number rounded toward zero. -/
def towardZero (x : ℚ) : Int := if 0 ≤ x then ⌊x⌋ else ⌈x⌉

/-- The unary operators on integers. -/
def signOps : List UnaryOp := [.plus, .minus, .complement]

/-- The binary operators on integers. -/
def integerOps : List BinaryOp :=
  [.add, .sub, .mul, .div, .rem, .shiftLeft, .shiftRight, .and, .or, .xor, .andNot]

/-- What a unary operator makes of an integer. -/
def UnaryResult : UnaryOp → Int → Int → Prop
  | .plus, a, n => n = a
  | .minus, a, n => n = -a
  | .complement, a, n => ∀ i, bit n i = !bit a i
  | _, _, _ => False

/-- What a binary operator makes of two integers. -/
def BinaryResult : BinaryOp → Int → Int → Int → Prop
  | .add, a, b, n => n = a + b
  | .sub, a, b, n => n = a - b
  | .mul, a, b, n => n = a * b
  | .div, a, b, n => b ≠ 0 ∧ n = towardZero (a / b)
  | .rem, a, b, n =>
    b ≠ 0 ∧ a = towardZero (a / b) * b + n ∧ |n| < |b| ∧ (n = 0 ∨ n.sign = a.sign)
  | .shiftLeft, a, b, n => 0 ≤ b ∧ n = a * 2 ^ b.toNat
  | .shiftRight, a, b, n => 0 ≤ b ∧ n = ⌊(a : ℚ) / 2 ^ b.toNat⌋
  | .and, a, b, n => ∀ i, bit n i = (bit a i && bit b i)
  | .or, a, b, n => ∀ i, bit n i = (bit a i || bit b i)
  | .xor, a, b, n => ∀ i, bit n i = (bit a i ^^ bit b i)
  | .andNot, a, b, n => ∀ i, bit n i = (bit a i && !bit b i)
  | .other _, _, _, _ => False

/-- The integer that an expression stands for, in the declaration with number `iota`. -/
inductive Yields (iota : Nat) : Expr → Int → Prop where
  | int {text : String} {base : Nat} {ds : List Nat} :
      IntegerForm text.toList base ds → Yields iota (.int text) (positional base ds)
  | rune {text : String} {cs : List Char} {n : Nat} :
      RuneForm cs n → text.toList = '\'' :: cs ++ ['\''] → Yields iota (.rune text) n
  | iota : Yields iota .iota iota
  | paren {e : Expr} {n : Int} : Yields iota e n → Yields iota (.paren e) n
  | unary {op : UnaryOp} {e : Expr} {a n : Int} :
      Yields iota e a → UnaryResult op a n → Yields iota (.unary op e) n
  | binary {op : BinaryOp} {l r : Expr} {a b n : Int} :
      Yields iota l a → Yields iota r b → BinaryResult op a b n → Yields iota (.binary op l r) n

/-- Whether an expression is one of integer and rune literals, `iota`, parentheses and operators on
integers, its literals spelled as they have to be. -/
def IntegerTree : Expr → Prop
  | .int text => ∃ base ds, IntegerForm text.toList base ds
  | .rune text => ∃ cs n, RuneForm cs n ∧ text.toList = '\'' :: cs ++ ['\'']
  | .iota => True
  | .paren e => IntegerTree e
  | .unary op e => op ∈ signOps ∧ IntegerTree e
  | .binary op l r => op ∈ integerOps ∧ IntegerTree l ∧ IntegerTree r
  | _ => False

/-- Whether an operator has no result for a right operand. -/
def Undefined : BinaryOp → Int → Prop
  | .div, b | .rem, b => b = 0
  | .shiftLeft, b | .shiftRight, b => b < 0
  | _, _ => False

/-- A division whose divisor is zero, or a shift whose count is negative. -/
def Stuck (iota : Nat) : Expr → Prop
  | .binary op _ r => ∃ b, Yields iota r b ∧ Undefined op b
  | _ => False

/-- A property of an expression or of one of its parts. -/
def Somewhere (P : Expr → Prop) : Expr → Prop
  | .paren e => P (.paren e) ∨ Somewhere P e
  | .unary op e => P (.unary op e) ∨ Somewhere P e
  | .binary op l r => P (.binary op l r) ∨ Somewhere P l ∨ Somewhere P r
  | .conversion type e => P (.conversion type e) ∨ Somewhere P e
  | e => P e

/-- A shift up is by no count that is too large to be held. -/
def HeldCount (iota : Nat) : Expr → Prop
  | .binary .shiftLeft _ r => ∀ b, Yields iota r b → b ≤ Constant.shiftLimit
  | _ => True

variable {types : Types} {names : String → Outcome Typed} {iota : Nat} {a b n : Int}

/-! ### Division -/

theorem abs_tmod_lt (a : Int) (hb : b ≠ 0) : |a.tmod b| < |b| := by
  rw [Int.abs_eq_natAbs, Int.abs_eq_natAbs, Int.natAbs_tmod]
  exact_mod_cast Nat.mod_lt _ (Int.natAbs_pos.mpr hb)

/-- A remainder has the sign of the dividend. -/
theorem tmod_mul_self_nonneg (a b : Int) : 0 ≤ a.tmod b * a := by
  rcases le_total 0 a with ha | ha
  · exact mul_nonneg (Int.tmod_nonneg b ha) ha
  · have h := Int.tmod_nonneg b (neg_nonneg.mpr ha)
    rw [Int.neg_tmod] at h
    exact mul_nonneg_of_nonpos_of_nonpos (neg_nonneg.mp h) ha

/-- The quotient that is cut off is the exact one, rounded toward zero. -/
theorem tdiv_eq_towardZero (a : Int) (hb : b ≠ 0) : a.tdiv b = towardZero (a / b) := by
  have hb' : (b : ℚ) ≠ 0 := Int.cast_ne_zero.mpr hb
  rcases eq_or_ne a 0 with rfl | ha
  · simp [towardZero]
  have hx : (a : ℚ) / b ≠ 0 := div_ne_zero (Int.cast_ne_zero.mpr ha) hb'
  -- what is cut off is a fraction below one, with the sign of the quotient
  have hsplit : (a : ℚ) / b = a.tdiv b + (a.tmod b : ℚ) / b := by
    have h : (a : ℚ) = b * a.tdiv b + a.tmod b := by
      exact_mod_cast (Int.mul_tdiv_add_tmod a b).symm
    rw [div_eq_iff hb', add_mul, div_mul_cancel₀ _ hb', mul_comm, ← h]
  have hsign : 0 ≤ (a.tmod b : ℚ) / b * (a / b) := by
    have h : (0 : ℚ) ≤ a.tmod b * a := by exact_mod_cast tmod_mul_self_nonneg a b
    rw [div_mul_div_comm]
    exact div_nonneg h (mul_self_nonneg _)
  have hsmall : |(a.tmod b : ℚ) / b| < 1 := by
    rw [abs_div, div_lt_one (abs_pos.mpr hb')]
    exact_mod_cast abs_tmod_lt a hb
  obtain ⟨hlow, hhigh⟩ := abs_lt.mp hsmall
  rw [towardZero]
  split
  · rename_i hle
    have hcut := nonneg_of_mul_nonneg_left hsign (hle.lt_of_ne hx.symm)
    refine (Int.floor_eq_iff.mpr ⟨?_, ?_⟩).symm <;> linarith
  · rename_i hlt
    have hcut := nonpos_of_mul_nonneg_left hsign (not_le.mp hlt)
    refine (Int.ceil_eq_iff.mpr ⟨?_, ?_⟩).symm <;> linarith

/-! ### Results of operators -/

theorem applyUnary_of_result {op : UnaryOp} (h : UnaryResult op a n) :
    Constant.applyUnary op (.whole a) none = .ok (.whole n) := by
  cases op with
  | plus => rw [h]; rfl
  | minus => rw [h]; rfl
  | complement =>
      have hn : n = Number.bitNot a :=
        Number.eq_of_bit_eq fun i => (h i).trans (Number.bit_bitNot a i).symm
      rw [hn]
      rfl
  | not | other => exact h.elim

theorem exists_unaryResult {op : UnaryOp} (hop : op ∈ signOps) (a : Int) :
    ∃ n, UnaryResult op a n := by
  simp only [signOps, List.mem_cons, List.not_mem_nil, or_false] at hop
  rcases hop with rfl | rfl | rfl
  · exact ⟨a, rfl⟩
  · exact ⟨-a, rfl⟩
  · exact ⟨Number.bitNot a, Number.bit_bitNot a⟩

/-- The arithmetic operators on integers, but for division. -/
theorem arithmetic_whole (a b : Int) :
    Constant.applyBinary .add (.whole a) (.whole b) = .ok (.whole (a + b)) ∧
      Constant.applyBinary .sub (.whole a) (.whole b) = .ok (.whole (a - b)) ∧
      Constant.applyBinary .mul (.whole a) (.whole b) = .ok (.whole (a * b)) := by
  have whole : ∀ (x : ℚ) (n : Int), x = n → (Constant.ratio x).normalize = .whole n := by
    rintro _ n rfl
    exact normalize_intCast n
  refine ⟨congrArg Except.ok (whole _ _ ?_), congrArg Except.ok (whole _ _ ?_),
    congrArg Except.ok (whole _ _ ?_)⟩
  · exact (Int.cast_add a b).symm
  · exact (Int.cast_sub a b).symm
  · exact (Int.cast_mul a b).symm

/-- **The result of an operator is what the evaluator computes**, unless a shift up is by too large
a count. -/
theorem applyBinary_of_result {op : BinaryOp} (h : BinaryResult op a b n)
    (hcount : op = .shiftLeft → b ≤ Constant.shiftLimit) :
    Constant.applyBinary op (.whole a) (.whole b) = .ok (.whole n) := by
  have bits : ∀ {m : Int}, (∀ i, bit n i = bit m i) →
      (Except.ok (Constant.whole m) : Except Constant.Failure Constant) = .ok (.whole n) :=
    fun hbits => by rw [Number.eq_of_bit_eq hbits]
  cases op with
  | add => rw [(arithmetic_whole a b).1, h]
  | sub => rw [(arithmetic_whole a b).2.1, h]
  | mul => rw [(arithmetic_whole a b).2.2, h]
  | div =>
      obtain ⟨hb, rfl⟩ := h
      have hb' : (b : ℚ) ≠ 0 := Int.cast_ne_zero.mpr hb
      rw [← tdiv_eq_towardZero a hb]
      exact if_neg hb'
  | rem =>
      obtain ⟨hb, hsplit, -⟩ := h
      rw [← tdiv_eq_towardZero a hb] at hsplit
      have hn : n = a.tmod b := by
        have hdivide := Int.mul_tdiv_add_tmod a b
        rw [mul_comm] at hdivide
        omega
      rw [hn]
      exact if_neg hb
  | shiftLeft =>
      obtain ⟨hb, rfl⟩ := h
      have hup : Constant.shiftUp a b.toNat = .ok (a * 2 ^ b.toNat) := by
        rw [Constant.shiftUp]
        split
        · rename_i ha
          rw [ha, zero_mul]
        · have hheld : ¬ Constant.shiftLimit < b.toNat := by
            have := hcount rfl
            omega
          rw [if_neg hheld]
          norm_num
      show Constant.shift .shiftLeft a b = _
      rw [Constant.shift, if_neg (Int.not_lt.mpr hb), if_pos rfl, hup]
      rfl
  | shiftRight =>
      obtain ⟨hb, rfl⟩ := h
      show Constant.shift .shiftRight a b = _
      rw [Constant.shift, if_neg (Int.not_lt.mpr hb), if_neg (by decide), Number.shiftDown_eq]
  | and => exact bits fun i => (h i).trans (Number.bit_bitAnd a b i).symm
  | or => exact bits fun i => (h i).trans (Number.bit_bitOr a b i).symm
  | xor => exact bits fun i => (h i).trans (Number.bit_bitXor a b i).symm
  | andNot =>
      refine bits fun i => (h i).trans ?_
      rw [Number.bit_bitAnd, Number.bit_bitNot]
  | other => exact h.elim

/-- An operator has a result, where it is not undefined. -/
theorem exists_binaryResult {op : BinaryOp} (hop : op ∈ integerOps) (a : Int)
    (hb : ¬ Undefined op b) : ∃ n, BinaryResult op a b n := by
  simp only [integerOps, List.mem_cons, List.not_mem_nil, or_false] at hop
  rcases hop with rfl | rfl | rfl | rfl | rfl | rfl | rfl | rfl | rfl | rfl | rfl
  · exact ⟨a + b, rfl⟩
  · exact ⟨a - b, rfl⟩
  · exact ⟨a * b, rfl⟩
  · exact ⟨_, hb, rfl⟩
  · refine ⟨a.tmod b, hb, ?_, abs_tmod_lt a hb, ?_⟩
    · rw [← tdiv_eq_towardZero a hb, mul_comm]
      exact (Int.mul_tdiv_add_tmod a b).symm
    · rw [Int.sign_tmod]
      split
      · rename_i hdvd
        exact .inl (Int.tmod_eq_zero_of_dvd hdvd)
      · exact .inr rfl
  · exact ⟨_, Int.not_lt.mp hb, rfl⟩
  · exact ⟨_, Int.not_lt.mp hb, rfl⟩
  · exact ⟨_, Number.bit_bitAnd a b⟩
  · exact ⟨_, Number.bit_bitOr a b⟩
  · exact ⟨_, Number.bit_bitXor a b⟩
  · refine ⟨Number.bitAnd a (Number.bitNot b), fun i => ?_⟩
    rw [Number.bit_bitAnd, Number.bit_bitNot]

/-- The refusals of operators on integers. -/
def integerRefusals : List Constant.Refusal := [.divisionByZero, .negativeShiftCount]

/-- An operator that is undefined is refused. -/
theorem applyBinary_of_undefined {op : BinaryOp} (a : Int) (h : Undefined op b) :
    ∃ cause ∈ integerRefusals,
      Constant.applyBinary op (.whole a) (.whole b) = .error (.refused cause) := by
  cases op with
  | div =>
      have hb : (b : ℚ) = 0 := Int.cast_eq_zero.mpr h
      exact ⟨.divisionByZero, by decide, if_pos hb⟩
  | rem => exact ⟨.divisionByZero, by decide, if_pos h⟩
  | shiftLeft | shiftRight => exact ⟨.negativeShiftCount, by decide, if_pos h⟩
  | _ => exact h.elim

/-! ### Expressions -/

/-- Two properties of all parts of an expression are one. -/
theorem everywhere_and {P Q : Expr → Prop} {e : Expr} (hP : Everywhere P e) (hQ : Everywhere Q e) :
    Everywhere (fun e => P e ∧ Q e) e := by
  induction e with
  | paren e ih | unary op e ih | conversion type e ih => exact ⟨⟨hP.1, hQ.1⟩, ih hP.2 hQ.2⟩
  | binary op l r ihl ihr => exact ⟨⟨hP.1, hQ.1⟩, ihl hP.2.1 hQ.2.1, ihr hP.2.2 hQ.2.2⟩
  | _ => exact ⟨hP, hQ⟩

/-- The literals of an expression can be read, and its shifts up are by counts that can be held. -/
def Fair (iota : Nat) : Expr → Prop := Everywhere fun e => ReadableLiteral e ∧ HeldCount iota e

/-- **The evaluator comes to the integer that an expression stands for.** -/
theorem denote_of_yields {e : Expr} (h : Yields iota e n) (hfair : Fair iota e) :
    denote types names iota e = some (.ok ⟨.whole n, none⟩) := by
  induction h with
  | int h =>
      rw [denote, Constant.integerLiteral_eq h, Number.readOf_of_readable (hfair.1 _ _ h)]
      rfl
  | rune h ht =>
      rw [denote, Constant.runeLiteral_eq h ht]
      rfl
  | iota => rfl
  | paren _ ih => exact ih hfair.2
  | unary _ hop ih =>
      rw [denote, ih hfair.2]
      show some ((Constant.applyUnary _ _ none).map _) = _
      rw [applyUnary_of_result hop]
      rfl
  | @binary op l r a b n _ hr hop ihl ihr =>
      rw [denote, ihl hfair.2.1, ihr hfair.2.2]
      have hcount : op = .shiftLeft → b ≤ Constant.shiftLimit := by
        rintro rfl
        exact hfair.1.2 b hr
      show some ((Constant.applyBinary op _ _).map _) = _
      rw [applyBinary_of_result hop hcount]
      show some (Except.ok (Typed.mk _ (resultType op none none))) = _
      rw [resultType_none]

/-- An expression of integers stands for one, or has a part that stands for none. -/
theorem yields_or_stuck (iota : Nat) {e : Expr} (h : IntegerTree e) :
    (∃ n, Yields iota e n) ∨ Somewhere (Stuck iota) e := by
  induction e with
  | int text =>
      obtain ⟨base, ds, h⟩ := h
      exact .inl ⟨_, .int h⟩
  | rune text =>
      obtain ⟨cs, n, h, ht⟩ := h
      exact .inl ⟨_, .rune h ht⟩
  | iota => exact .inl ⟨_, .iota⟩
  | paren e ih =>
      rcases ih h with ⟨n, hn⟩ | hstuck
      · exact .inl ⟨n, .paren hn⟩
      · exact .inr (.inr hstuck)
  | unary op e ih =>
      rcases ih h.2 with ⟨a, ha⟩ | hstuck
      · obtain ⟨n, hn⟩ := exists_unaryResult h.1 a
        exact .inl ⟨n, .unary ha hn⟩
      · exact .inr (.inr hstuck)
  | binary op l r ihl ihr =>
      rcases ihl h.2.1 with ⟨a, ha⟩ | hstuck
      · rcases ihr h.2.2 with ⟨b, hb⟩ | hstuck
        · by_cases hop : Undefined op b
          · exact .inr (.inl ⟨b, hb, hop⟩)
          · obtain ⟨n, hn⟩ := exists_binaryResult h.1 a hop
            exact .inl ⟨n, .binary ha hb hn⟩
        · exact .inr (.inr (.inr hstuck))
      · exact .inr (.inr (.inl hstuck))
  | float | string | truth | name | conversion | unsupported | notText => exact h.elim

/-- An expression is refused for an operator on integers that is undefined. -/
def Refused (types : Types) (names : String → Outcome Typed) (iota : Nat) (e : Expr) : Prop :=
  ∃ cause ∈ integerRefusals, denote types names iota e = some (.error (.refused cause))

theorem Refused.bind {e : Expr} (h : Refused types names iota e) (f : Typed → Outcome Typed) :
    ∃ cause ∈ integerRefusals,
      (denote types names iota e).bind f = some (.error (.refused cause)) := by
  obtain ⟨cause, hcause, h⟩ := h
  exact ⟨cause, hcause, by rw [h]; rfl⟩

/-- **An expression with a part that stands for no integer is refused.** -/
theorem denote_of_stuck {e : Expr} (htree : IntegerTree e) (hfair : Fair iota e)
    (h : Somewhere (Stuck iota) e) : Refused types names iota e := by
  induction e with
  | paren e ih => exact ih htree hfair.2 (h.resolve_left id)
  | unary op e ih => exact (ih htree.2 hfair.2 (h.resolve_left id)).bind _
  | binary op l r ihl ihr =>
      -- the left operand comes first: only when it stands for an integer, the right one counts
      rcases yields_or_stuck iota htree.2.1 with ⟨a, ha⟩ | hl
      · rw [Refused, denote, denote_of_yields ha hfair.2.1]
        rcases h with ⟨b, hb, hop⟩ | hl | hr
        · obtain ⟨cause, hcause, happly⟩ := applyBinary_of_undefined a hop
          rw [denote_of_yields hb hfair.2.2]
          refine ⟨cause, hcause, ?_⟩
          show some ((Constant.applyBinary op _ _).map _) = _
          rw [happly]
          rfl
        · obtain ⟨cause, -, hrefused⟩ := ihl htree.2.1 hfair.2.1 hl
          rw [denote_of_yields ha hfair.2.1] at hrefused
          cases hrefused
        · exact (ihr htree.2.2 hfair.2.2 hr).bind _
      · exact (ihl htree.2.1 hfair.2.1 hl).bind _
  | int | rune | iota => exact h.elim
  | float | string | truth | name | conversion | unsupported | notText => exact htree.elim

/-- **The arithmetic of integers.**  An expression of integer and rune literals, `iota`,
parentheses and the operators on integers is evaluated to the integer that it stands for, without a
type; it fails if and only if a divisor in it is zero or the count of a shift is negative, and there
is nothing else that comes of it. -/
theorem evaluate_integers (types : Types) (lookup : String → Search Typed) (iota : Nat) {e : Expr}
    (htree : IntegerTree e) (hread : Everywhere ReadableLiteral e)
    (hcounts : Everywhere (HeldCount iota) e) (p : Progress) :
    (∀ n, (evaluate types lookup iota e).run p = (.ok ⟨.whole n, none⟩, p) ↔ Yields iota e n) ∧
      ((∃ cause, (evaluate types lookup iota e).run p = (.error cause, p)) ↔
        Somewhere (Stuck iota) e) ∧
      ((∃ n, (evaluate types lookup iota e).run p = (.ok ⟨.whole n, none⟩, p)) ∨
        ∃ cause ∈ integerRefusals,
          (evaluate types lookup iota e).run p = (.error (.refused cause), p)) := by
  have hfair : Fair iota e := everywhere_and hread hcounts
  have hvalue {n : Int} (hn : Yields iota e n) :
      denote types (fun _ => none) iota e = some (.ok ⟨.whole n, none⟩) :=
    denote_of_yields hn hfair
  have hrefused (hs : Somewhere (Stuck iota) e) : Refused types (fun _ => none) iota e :=
    denote_of_stuck htree hfair hs
  rcases yields_or_stuck iota htree with ⟨m, hm⟩ | hs
  · have hrun := evaluate_of_denote (hvalue hm) lookup p
    have hfine : ¬ Somewhere (Stuck iota) e := by
      intro hs
      obtain ⟨cause, -, h⟩ := hrefused hs
      rw [hvalue hm] at h
      cases h
    rw [hrun]
    refine ⟨fun n => ⟨?_, fun hn => ?_⟩, ⟨?_, fun hs => (hfine hs).elim⟩, .inl ⟨m, rfl⟩⟩
    · rintro ⟨⟩
      exact hm
    · rw [← hrun, evaluate_of_denote (hvalue hn)]
    · rintro ⟨cause, ⟨⟩⟩
  · obtain ⟨cause, hcause, h⟩ := hrefused hs
    have hrun := evaluate_of_denote h lookup p
    rw [hrun]
    refine ⟨fun n => ⟨?_, fun hn => ?_⟩, ⟨fun _ => hs, fun _ => ⟨_, rfl⟩⟩,
      .inr ⟨cause, hcause, rfl⟩⟩
    · rintro ⟨⟩
    · rw [hvalue hn] at h
      cases h

theorem readableLiteral_of_ok {text : String} (h : Constant.integerLiteral text = .ok n) :
    ReadableLiteral (.int text) := by
  intro base ds hform
  by_contra hr
  rw [Constant.integerLiteral_eq hform, Number.readOf_of_not_readable hr] at h
  cases h

/-- The half of minus seven, without the bit that `iota` counts to. -/
def halfWithoutBit : Expr :=
  .binary .andNot (.binary .div (.unary .minus (.int "7")) (.int "0x2"))
    (.paren (.binary .shiftLeft (.rune "'\\001'") .iota))

theorem evaluate_integers_halfWithoutBit :
    IntegerTree halfWithoutBit ∧ Everywhere ReadableLiteral halfWithoutBit ∧
      Everywhere (HeldCount 3) halfWithoutBit ∧ Yields 3 halfWithoutBit (-11) := by
  have htree : IntegerTree halfWithoutBit := by
    have hseven : Constant.IntegerForm "7".toList 10 [7] := .decimal (.last rfl) (by decide)
    have htwo : Constant.IntegerForm "0x2".toList 16 [2] :=
      .marked (rfl : Number.prefixBase? 'x' = some 16) (.direct (.last rfl))
    have hdigits : Number.Spells 8 ['0', '0', '1'] [0, 0, 1] :=
      .cons rfl (.cons rfl (.cons rfl .nil))
    have hone : Constant.RuneForm ['\\', '0', '0', '1'] 1 := .octal hdigits rfl (by decide)
    exact ⟨by decide, ⟨by decide, ⟨by decide, _, _, hseven⟩, _, _, htwo⟩, by decide,
      ⟨_, _, hone, rfl⟩, trivial⟩
  have hread : Everywhere ReadableLiteral halfWithoutBit :=
    ⟨trivial, ⟨trivial, ⟨trivial, readableLiteral_of_ok (n := 7) (by decide +kernel)⟩,
      readableLiteral_of_ok (n := 2) (by decide +kernel)⟩, trivial, trivial, trivial, trivial⟩
  have hcounts : Everywhere (HeldCount 3) halfWithoutBit := by
    refine ⟨trivial, ⟨trivial, ⟨trivial, trivial⟩, trivial⟩, trivial, fun b hb => ?_, trivial,
      trivial⟩
    cases hb
    decide
  refine ⟨htree, hread, hcounts, ?_⟩
  refine ((evaluate_integers {} (fun _ => throw .notText) 3 htree hread hcounts {}).1 (-11)).mp ?_
  refine evaluate_of_denote ?_ _ {}
  simp only [halfWithoutBit, denote, Outcome.bind]
  decide +kernel

end EnumHelpers.Package
