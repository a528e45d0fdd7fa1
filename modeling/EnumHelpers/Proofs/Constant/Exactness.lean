import EnumHelpers.Proofs.Constant.HexFloat
import EnumHelpers.Proofs.Number.Nearest

/-!
# Proofs — exact floating-point literals

A decimal floating-point literal is read digit by digit, and has the number that it denotes unless
one of its parts has too many digits.  A hexadecimal one is read through double precision: it has
the nearest number that double precision holds, or none when it is out of range.

* `nearest_of_floatLiteral`: a hexadecimal literal is rounded to the nearest number.
* `floatLiteral_exact_iff`: which literals have the number that they denote.
-/

namespace EnumHelpers.Constant
open Number Text

/-- A floating-point literal denotes a number: its digits times a power of ten, or of two when it is
hexadecimal. -/
inductive FloatDenotes (cs : List Char) : Rat → Prop where
  | decimal {d : FloatDigits} : FloatForm cs d → FloatDenotes cs d.value
  | hexadecimal {d : HexDigits} : HexForm cs d → FloatDenotes cs d.value

/-- A floating-point literal is exact for a number: the parts of a decimal one are short enough to
be read, and double precision holds the number of a hexadecimal one. -/
inductive FloatExact (cs : List Char) (q : Rat) : Prop where
  | decimal {d : FloatDigits} : FloatForm cs d → d.Readable → FloatExact cs q
  | hexadecimal {d : HexDigits} : HexForm cs d → Binary64.Holds q → FloatExact cs q

variable {cs : List Char} {text : String} {q : Rat}

theorem hasMark_of_floatForm {d : FloatDigits} (h : FloatForm cs d) :
    hasMark ['x', 'X'] (bare cs) = false := by
  obtain ⟨w, rest, f, digits, hbare, hw, -, -, -, hr, -⟩ := h.parts
  rw [hbare]
  exact hasMark_of_parts hw hr

theorem hasMark_of_hexForm {d : HexDigits} (h : HexForm cs d) :
    hasMark ['x', 'X'] (bare cs) = true := by
  have marked : ∀ {mark : Char} (cs : List Char), mark ∈ ['x', 'X'] →
      hasMark ['x', 'X'] (bare ('0' :: mark :: cs)) = true := by
    intro mark cs hm
    have hmark : mark ≠ '_' := by rintro rfl; exact absurd hm (by decide)
    rwa [bare_cons (by decide), bare_cons hmark, hasMark, List.contains_eq_mem, decide_eq_true_iff]
  cases h with
  | point hm _ _ _ => exact marked _ hm
  | whole hm _ _ => exact marked _ hm
  | fraction hm _ _ => exact marked _ hm

/-- No literal is both decimal and hexadecimal. -/
theorem not_hexForm_of_floatForm {d : FloatDigits} (h : FloatForm cs d) (d' : HexDigits) :
    ¬ HexForm cs d' := by
  intro h'
  have hmark := hasMark_of_hexForm h'
  rw [hasMark_of_floatForm h] at hmark
  cases hmark

/-- **A hexadecimal floating-point literal is rounded** to the nearest number that double precision
holds. -/
theorem nearest_of_floatLiteral {d : HexDigits} (h : HexForm text.toList d)
    (hq : floatLiteral text = .ok q) : Binary64.Nearest q d.value := by
  rw [floatLiteral_of_hexForm h, mapError_eq_ok] at hq
  exact nearest_of_binaryValue hq

theorem floatLiteral_decimal_iff {d : FloatDigits} (h : FloatForm text.toList d) :
    floatLiteral text = .ok d.value ↔ d.Readable := by
  refine ⟨fun hq => ?_, floatLiteral_eq_ok h⟩
  by_contra hr
  obtain ⟨fault, herror⟩ := floatLiteral_eq_error h hr
  rw [herror] at hq
  cases hq

theorem floatLiteral_hexadecimal_iff {d : HexDigits} (h : HexForm text.toList d) :
    floatLiteral text = .ok d.value ↔ Binary64.Holds d.value := by
  rw [floatLiteral_of_hexForm h, mapError_eq_ok]
  exact binaryValue_eq_ok_iff

/-- **A floating-point literal has the number that it denotes** if and only if it is exact for it:
it is decimal and every part of it has few enough digits, or it is hexadecimal and double precision
holds the number. -/
theorem floatLiteral_exact_iff (h : FloatDenotes text.toList q) :
    floatLiteral text = .ok q ↔ FloatExact text.toList q := by
  cases h with
  | @decimal d h =>
      refine ⟨fun hq => .decimal h ((floatLiteral_decimal_iff h).mp hq), ?_⟩
      rintro (⟨h', hr⟩ | ⟨h', -⟩)
      · -- the digits are those of the literal, however it is taken apart
        by_contra hq
        rw [floatLiteral_decimal_iff h] at hq
        obtain ⟨fault, herror⟩ := floatLiteral_eq_error h hq
        rw [floatLiteral_eq_ok h' hr] at herror
        cases herror
      · exact absurd h' (not_hexForm_of_floatForm h _)
  | @hexadecimal d h =>
      rw [floatLiteral_hexadecimal_iff h]
      refine ⟨.hexadecimal h, ?_⟩
      rintro (⟨h', -⟩ | ⟨-, hx⟩)
      · exact absurd h (not_hexForm_of_floatForm h' _)
      · exact hx

/-! ### Literals in sixteens -/

/-- The number three, with a point and an exponent. -/
theorem hexForm_three : HexForm "0x1.8p1".toList ⟨[1], [8], false, [1]⟩ :=
  .point (w := ['1']) (f := ['8']) (x := ['p', '1']) (by decide) (.direct (.last rfl))
    (.inr (.last rfl)) (.of (by decide) (.plain (.last rfl)))

theorem floatLiteral_three : FloatDenotes "0x1.8p1".toList 3 ∧ floatLiteral "0x1.8p1" = .ok 3 := by
  have hvalue : HexDigits.value ⟨[1], [8], false, [1]⟩ = 3 := by
    norm_num [HexDigits.value, HexDigits.mantissa, HexDigits.power, positional, Nat.ofDigits]
  have hdenotes : FloatDenotes "0x1.8p1".toList 3 := hvalue ▸ .hexadecimal hexForm_three
  exact ⟨hdenotes, (floatLiteral_exact_iff hdenotes).mpr
    (.hexadecimal hexForm_three ⟨3, 0, by decide, by decide, by decide, by norm_num⟩)⟩

/-- A mantissa of 54 bits. -/
theorem hexForm_long : HexForm "0x20000000000001p0".toList
    ⟨[2, 0, 0, 0, 0, 0, 0, 0, 0, 0, 0, 0, 0, 1], [], false, [0]⟩ :=
  .whole (w := "20000000000001".toList) (x := ['p', '0']) (by decide)
    (.direct (.of_spells (by unfold Spells; decide) (by decide)))
    (.of (by decide) (.plain (.last rfl)))

/-- The last bit of the mantissa is lost: the literal has the number below. -/
theorem long_mantissa_rounded :
    FloatDenotes "0x20000000000001p0".toList (2 ^ 53 + 1) ∧
      floatLiteral "0x20000000000001p0" = .ok (2 ^ 53) := by
  have hmantissa : HexDigits.mantissa
      ⟨[2, 0, 0, 0, 0, 0, 0, 0, 0, 0, 0, 0, 0, 1], [], false, [0]⟩ = 2 ^ 53 + 1 := by decide
  have hpower : HexDigits.power
      ⟨[2, 0, 0, 0, 0, 0, 0, 0, 0, 0, 0, 0, 0, 1], [], false, [0]⟩ = 0 := by decide
  constructor
  · have hvalue : HexDigits.value
        ⟨[2, 0, 0, 0, 0, 0, 0, 0, 0, 0, 0, 0, 0, 1], [], false, [0]⟩ = 2 ^ 53 + 1 := by
      rw [HexDigits.value, hmantissa, hpower]
      norm_num
    exact hvalue ▸ .hexadecimal hexForm_long
  · rw [floatLiteral_of_hexForm hexForm_long, hmantissa, hpower]
    decide +kernel

end EnumHelpers.Constant
