import EnumHelpers.Constant.Operator
import EnumHelpers.Proofs.Constant.HexFloat
import EnumHelpers.Proofs.Number.Binary64
import EnumHelpers.Proofs.Outcome
import EnumHelpers.Proofs.Source.Literal

/-!
# Proofs — literals and operators without a value

A constant that is refused, or that leads back to itself, is recorded without a value.  The other
failures break off all of the evaluation (`Failure.Breaks`).  For a literal that is spelled as its
kind is, and for an operator, this is so in four cases: a decimal integer or a decimal float has too
many digits in one part, a hexadecimal float is out of range, or an integer other than zero is
shifted up by too much.

* `breaks_integerLiteral_iff`, `breaks_floatLiteral_iff`, `breaks_applyBinary_iff`: these cases.
-/

namespace EnumHelpers.Constant
open Number Source

/-- A failure that is not recorded but breaks off the evaluation. -/
def Failure.Breaks : Failure → Prop
  | .fault _ | .notText => True
  | .refused _ | .cycle _ => False

variable {text : String} {base : Nat} {ds : List Nat} {cause : Failure}

/-! ### Literals -/

/-- The base of an integer literal is ten or a power of two. -/
theorem base_of_integerForm {cs : List Char} (h : IntegerForm cs base ds) :
    base = 10 ∨ isBinaryBase base = true := by
  cases h with
  | zero => exact .inl rfl
  | decimal _ _ => exact .inl rfl
  | octal _ => exact .inr rfl
  | marked hm _ =>
      unfold prefixBase? at hm
      split_ifs at hm <;> cases hm <;> exact .inr rfl

theorem readable_iff_of_integerForm {cs : List Char} (h : IntegerForm cs base ds) :
    Readable base ds ↔ ¬ (base = 10 ∧ digitLimit < ds.length) := by
  rw [Readable, not_and, not_lt]
  rcases base_of_integerForm h with rfl | hb
  · simp [isBinaryBase]
  · simp only [hb, true_or, true_iff]
    rintro rfl
    exact absurd hb (by decide)

theorem readable_of_length {cs : List Char} (h : IntegerForm cs base ds)
    (hlength : base = 10 → ds.length ≤ digitLimit) : Readable base ds := by
  rw [readable_iff_of_integerForm h, not_and, not_lt]
  exact hlength

/-- An integer literal of digits that can be read has its positional value. -/
theorem integerLiteral_eq_ok (h : IntegerForm text.toList base ds) (hr : Readable base ds) :
    integerLiteral text = .ok (positional base ds) := by
  rw [integerLiteral_eq h, readOf_of_readable hr]
  rfl

/-- An integer literal is read unless it is decimal and has too many digits. -/
theorem breaks_integerLiteral_iff (h : ∃ base ds, IntegerForm text.toList base ds) :
    (∃ cause, cause.Breaks ∧ integerLiteral text = .error cause) ↔
      ∃ ds, IntegerForm text.toList 10 ds ∧ digitLimit < ds.length := by
  constructor
  · obtain ⟨base, ds, h⟩ := h
    rintro ⟨cause, -, herror⟩
    by_cases hr : Readable base ds
    · rw [integerLiteral_eq_ok h hr] at herror
      cases herror
    · rw [readable_iff_of_integerForm h, not_not] at hr
      obtain ⟨rfl, hlong⟩ := hr
      exact ⟨ds, h, hlong⟩
  · rintro ⟨ds, h, hlong⟩
    have hr : ¬ Readable 10 ds := fun hr => (readable_iff_of_integerForm h).mp hr ⟨rfl, hlong⟩
    exact ⟨.fault (.tooManyDigits ds.length), trivial,
      by rw [integerLiteral_eq h, readOf_of_not_readable hr]; rfl⟩

/-- A floating-point literal beyond what is read: a part of a decimal one has too many digits, or a
hexadecimal one is out of range. -/
def FloatExceeds (cs : List Char) : Prop :=
  (∃ d, FloatForm cs d ∧ ¬ d.Readable) ∨
    ∃ d, HexForm cs d ∧ Binary64.overflowBound ≤ d.value

theorem breaks_floatLiteral_iff (h : IsFloat text.toList) :
    (∃ cause, cause.Breaks ∧ floatLiteral text = .error cause) ↔ FloatExceeds text.toList := by
  constructor
  · rintro ⟨cause, -, herror⟩
    rcases h with ⟨d, h⟩ | ⟨d, h⟩
    · refine .inl ⟨d, h, fun hr => ?_⟩
      rw [floatLiteral_eq_ok h hr] at herror
      cases herror
    · rw [floatLiteral_of_hexForm h, mapError_eq_error] at herror
      obtain ⟨fault, herror, -⟩ := herror
      exact .inr ⟨d, h, (binaryValue_eq_error_iff.mp herror).2⟩
  · rintro (⟨d, h, hr⟩ | ⟨d, h, hbound⟩)
    · obtain ⟨fault, herror⟩ := floatLiteral_eq_error h hr
      exact ⟨.fault fault, trivial, herror⟩
    · refine ⟨.fault .outOfRange, trivial, ?_⟩
      rw [floatLiteral_of_hexForm h, binaryValue_eq_error_iff.mpr ⟨rfl, hbound⟩]
      rfl

theorem runeLiteral_of_isRune (h : IsRune text.toList) : ∃ n, runeLiteral text = .ok n := by
  obtain ⟨body, n, ht, hbody⟩ := h
  exact ⟨n, runeLiteral_of_spelling hbody ht⟩

/-! ### Operators -/

variable {op : BinaryOp} {left right v : Constant}

/-- The only failures of a computation are those that are recorded. -/
def Refuses {α : Type} (x : Except Failure α) : Prop := ∀ cause, x = .error cause → ¬ cause.Breaks

theorem refuses_ok {α : Type} (a : α) : Refuses (.ok a : Except Failure α) := nofun

theorem refuses_refused {α : Type} (r : Refusal) :
    Refuses (.error (.refused r) : Except Failure α) := by
  rintro _ ⟨⟩
  exact id

theorem Refuses.bind {α β : Type} {x : Except Failure α} {f : α → Except Failure β}
    (hx : Refuses x) (hf : ∀ a, Refuses (f a)) : Refuses (x >>= f) := by
  intro cause h
  rcases bind_eq_error.mp h with h | ⟨a, -, h⟩
  · exact hx cause h
  · exact hf a cause h

/-- An operator that cannot be applied to its operand refuses it. -/
theorem refuses_applyUnary (op : UnaryOp) (v : Constant) (bits : Option Nat) :
    Refuses (applyUnary op v bits) := by
  cases op with
  | plus => exact refuses_ok _
  | minus =>
      cases v with
      | whole | ratio => exact refuses_ok _
      | text | truth => exact refuses_refused _
  | complement =>
      rw [applyUnary]
      split
      · exact refuses_ok _
      · exact refuses_refused _
  | not =>
      cases v with
      | truth => exact refuses_ok _
      | whole | ratio | text => exact refuses_refused _
  | other => exact refuses_refused _

theorem refuses_requireInteger (op : BinaryOp) (v : Constant) : Refuses (requireInteger op v) := by
  unfold requireInteger
  split
  · exact refuses_ok _
  · exact refuses_refused _

theorem refuses_bitwise (op : BinaryOp) (a b : Int) : Refuses (bitwise op a b) := by
  have hrem : Refuses (if b = 0 then .error (.refused .divisionByZero)
      else .ok (.whole (a.tmod b)) : Except Failure Constant) := by
    split
    · exact refuses_refused _
    · exact refuses_ok _
  cases op with
  | and | or | xor | andNot => exact refuses_ok _
  | _ => exact hrem

theorem refuses_divide (left right : Constant) (p q : Rat) : Refuses (divide left right p q) := by
  unfold divide
  split
  · exact refuses_refused _
  · split <;> exact refuses_ok _

theorem refuses_arithmetic (op : BinaryOp) (left right : Constant) :
    Refuses (arithmetic op left right) := by
  unfold arithmetic
  split
  · cases op with
    | add | sub | mul => exact refuses_ok _
    | div => exact refuses_divide _ _ _ _
    | _ => exact refuses_refused _
  · exact refuses_refused _

/-- An integer other than zero that is shifted up by too much. -/
def ShiftExceeds (left right : Constant) : Prop :=
  ∃ n count : Int, left.integer? = some n ∧ n ≠ 0 ∧ right.integer? = some count ∧
    shiftLimit < count

theorem requireInteger_eq_ok {n : Int} : requireInteger op v = .ok n ↔ v.integer? = some n := by
  unfold requireInteger
  cases v.integer? <;> simp

/-- A shift breaks off when it would make an integer too large. -/
theorem breaks_shift_iff {n count : Int} :
    (∃ cause, cause.Breaks ∧ shift op n count = .error cause) ↔
      op = .shiftLeft ∧ n ≠ 0 ∧ shiftLimit < count := by
  rw [shift]
  split
  · rename_i hneg
    constructor
    · rintro ⟨_, hbreaks, ⟨⟩⟩
      exact hbreaks.elim
    · rintro ⟨-, -, hcount⟩
      omega
  · rename_i hneg
    split
    · rename_i hop
      simp only [shiftUp, map_eq_error]
      split_ifs with hn hlimit
      · exact ⟨fun ⟨_, _, h⟩ => (nomatch h), fun h => (h.2.1 hn).elim⟩
      · exact ⟨fun _ => ⟨hop, hn, by omega⟩, fun _ => ⟨.fault .outOfRange, trivial, rfl⟩⟩
      · exact ⟨fun ⟨_, _, h⟩ => (nomatch h), fun h => absurd h.2.2 (by omega)⟩
    · rename_i hop
      exact ⟨fun ⟨_, _, h⟩ => (nomatch h), fun h => (hop h.1).elim⟩

theorem refuses_applyBinary (hleft : op ≠ .shiftLeft) (hright : op ≠ .shiftRight) :
    Refuses (applyBinary op left right) := by
  cases op with
  | shiftLeft => exact absurd rfl hleft
  | shiftRight => exact absurd rfl hright
  | and | or | xor | andNot | rem =>
      exact (refuses_requireInteger _ _).bind fun a =>
        (refuses_requireInteger _ _).bind fun b => refuses_bitwise _ a b
  | add | sub | mul | div | other =>
      rw [applyBinary.eq_def]
      exact refuses_arithmetic _ _ _

/-- **An operator breaks off only as a shift up** that makes an integer too large. -/
theorem breaks_applyBinary_iff :
    (∃ cause, cause.Breaks ∧ applyBinary op left right = .error cause) ↔
      op = .shiftLeft ∧ ShiftExceeds left right := by
  by_cases hop : op = .shiftLeft ∨ op = .shiftRight
  · have hshift : applyBinary op left right = (do
        let n ← requireInteger op left
        let count ← requireInteger op right
        shift op n count) := by
      rcases hop with rfl | rfl <;> rfl
    rw [hshift]
    constructor
    · rintro ⟨cause, hbreaks, h⟩
      rcases bind_eq_error.mp h with h | ⟨n, hn, h⟩
      · exact (refuses_requireInteger _ _ _ h hbreaks).elim
      rcases bind_eq_error.mp h with h | ⟨count, hcount, h⟩
      · exact (refuses_requireInteger _ _ _ h hbreaks).elim
      obtain ⟨hleft, hne, hlimit⟩ := breaks_shift_iff.mp ⟨cause, hbreaks, h⟩
      rw [requireInteger_eq_ok] at hn hcount
      exact ⟨hleft, n, count, hn, hne, hcount, hlimit⟩
    · rintro ⟨hleft, n, count, hn, hne, hcount, hlimit⟩
      obtain ⟨cause, hbreaks, h⟩ := breaks_shift_iff.mpr ⟨hleft, hne, hlimit⟩
      exact ⟨cause, hbreaks, by
        rw [requireInteger_eq_ok.mpr hn, ok_bind, requireInteger_eq_ok.mpr hcount, ok_bind, h]⟩
  · rw [not_or] at hop
    refine ⟨fun ⟨cause, hbreaks, h⟩ => ?_, fun h => (hop.1 h.1).elim⟩
    exact (refuses_applyBinary hop.1 hop.2 cause h hbreaks).elim

end EnumHelpers.Constant
