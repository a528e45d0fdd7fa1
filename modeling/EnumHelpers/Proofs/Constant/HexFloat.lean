import EnumHelpers.Proofs.Constant.Literal

/-!
# Proofs — hexadecimal floating-point literals

The forms of a hexadecimal floating-point literal, whose digits are multiplied by a power of two.
A literal of one of these forms is read through double precision: it has the value of the number
that is nearest to what it denotes, or none when that is out of range.

* `floatLiteral_of_hexForm`: a hexadecimal float is read as its digits and its exponent.
-/

namespace EnumHelpers.Constant
open Number Text

/-- The digits of a hexadecimal floating-point literal: before the point, behind it, and those of
the exponent with its sign. -/
structure HexDigits where
  whole : List Nat
  fraction : List Nat
  negative : Bool
  exponent : List Nat

namespace HexDigits

/-- The number that the digits on both sides of the point spell. -/
def mantissa (d : HexDigits) : Nat := positional 16 (d.whole ++ d.fraction)

/-- The power of two that the mantissa is multiplied by. -/
def power (d : HexDigits) : Int :=
  (if d.negative then -(positional 10 d.exponent : Int) else positional 10 d.exponent) -
    4 * d.fraction.length

/-- The number that a literal denotes. -/
def value (d : HexDigits) : Rat := d.mantissa * 2 ^ d.power

end HexDigits

/-- Digits with a sign, or without one. -/
inductive SignedRun : List Char → Bool → List Nat → Prop where
  | plain {cs : List Char} {ds : List Nat} : DigitRun 10 cs ds → SignedRun cs false ds
  | plus {cs : List Char} {ds : List Nat} : DigitRun 10 cs ds → SignedRun ('+' :: cs) false ds
  | minus {cs : List Char} {ds : List Nat} : DigitRun 10 cs ds → SignedRun ('-' :: cs) true ds

/-- The forms of a binary exponent. -/
inductive BinaryExponent : List Char → Bool → List Nat → Prop where
  | of {p : Char} {cs : List Char} {negative : Bool} {ds : List Nat} :
      p ∈ ['p', 'P'] → SignedRun cs negative ds → BinaryExponent (p :: cs) negative ds

/-- The forms of a hexadecimal floating-point literal. -/
inductive HexForm : List Char → HexDigits → Prop where
  | point {mark : Char} {w f x : List Char} {ws fs es : List Nat} {negative : Bool} :
      mark ∈ ['x', 'X'] → PrefixedRun 16 w ws → f = [] ∧ fs = [] ∨ DigitRun 16 f fs →
        BinaryExponent x negative es →
        HexForm ('0' :: mark :: (w ++ '.' :: (f ++ x))) ⟨ws, fs, negative, es⟩
  | whole {mark : Char} {w x : List Char} {ws es : List Nat} {negative : Bool} :
      mark ∈ ['x', 'X'] → PrefixedRun 16 w ws → BinaryExponent x negative es →
        HexForm ('0' :: mark :: (w ++ x)) ⟨ws, [], negative, es⟩
  | fraction {mark : Char} {f x : List Char} {fs es : List Nat} {negative : Bool} :
      mark ∈ ['x', 'X'] → DigitRun 16 f fs → BinaryExponent x negative es →
        HexForm ('0' :: mark :: '.' :: (f ++ x)) ⟨[], fs, negative, es⟩

variable {base : Nat} {cs rest : List Char} {ds : List Nat}

/-- The digits at the front of a text end where a character is no digit. -/
theorem span_spells (h : Spells base cs ds) (hr : ∀ c ∈ rest.head?, digitIn? base c = none) :
    (cs ++ rest).span (fun c => (digitIn? base c).isSome) = (cs, rest) := by
  have hcs : ∀ c ∈ cs, (digitIn? base c).isSome = true := fun c hc => by
    obtain ⟨d, hd⟩ := h.digit c hc
    rw [hd, Option.isSome_some]
  have htake : rest.takeWhile (fun c => (digitIn? base c).isSome) = [] ∧
      rest.dropWhile (fun c => (digitIn? base c).isSome) = rest := by
    cases rest with
    | nil => exact ⟨rfl, rfl⟩
    | cons c rest => simp [hr c rfl]
  rw [List.span_eq_takeWhile_dropWhile, List.takeWhile_append_of_pos hcs,
    List.dropWhile_append_of_pos hcs, htake.1, htake.2, List.append_nil]

theorem filterMap_spells (h : Spells base cs ds) : cs.filterMap (digitIn? base) = ds := by
  induction h with
  | nil => rfl
  | cons hc _ ih => rw [List.filterMap_cons_some hc, ih]

theorem spanHexadecimal_append (h : Spells 16 cs ds)
    (hr : ∀ c ∈ rest.head?, digitIn? 16 c = none) : spanHexadecimal (cs ++ rest) = (ds, rest) := by
  rw [spanHexadecimal, span_spells h hr]
  dsimp only
  rw [filterMap_spells h]

/-- A binary exponent is taken from a text as it stands there. -/
theorem takeBinaryExponent_bare {x : List Char} {negative : Bool} {es : List Nat}
    (h : BinaryExponent x negative es) : takeBinaryExponent (bare x) =
      some (if negative then -(positional 10 es : Int) else positional 10 es, []) := by
  have taken : ∀ {cs : List Char}, DigitRun 10 cs es →
      ((bare cs).span fun c => (digitIn? 10 c).isSome) = (bare cs, []) ∧
        (bare cs).isEmpty = false ∧ ofDigits 10 0 ((bare cs).filterMap (digitIn? 10)) =
          positional 10 es := by
    intro cs h
    have hspan := span_spells h.spells (show ∀ c ∈ ([] : List Char).head?, _ by simp)
    rw [List.append_nil] at hspan
    exact ⟨hspan, by simpa using spells_ne_nil h.spells h.ne_nil,
      by rw [filterMap_spells h.spells, ofDigits_zero]⟩
  cases h with
  | @of p cs _ _ hp h =>
      have hletter : p = 'p' ∨ p = 'P' := by simpa using hp
      have hlow : p ≠ '_' := by rintro rfl; exact absurd hp (by decide)
      rw [bare_cons hlow, takeBinaryExponent.eq_def]
      dsimp only
      rw [if_pos hletter]
      cases h with
      | plain h =>
          obtain ⟨hspan, hne, hvalue⟩ := taken h
          have hplain := h.spells.isPlain
          generalize bare cs = digits at hspan hne hvalue hplain
          -- the digits do not begin with a sign
          split
          · exact absurd rfl (hplain '-' List.mem_cons_self).minus
          · exact absurd rfl (hplain '+' List.mem_cons_self).plus
          · simp only [hspan, hne, hvalue, Bool.false_eq_true, if_false]
      | plus h =>
          obtain ⟨hspan, hne, hvalue⟩ := taken h
          rw [bare_cons (by decide)]
          simp only [hspan, hne, hvalue, Bool.false_eq_true, if_false]
      | minus h =>
          obtain ⟨hspan, hne, hvalue⟩ := taken h
          rw [bare_cons (by decide)]
          simp only [hspan, hne, hvalue, Bool.false_eq_true, if_false, if_true]

/-- A binary exponent begins with a letter. -/
theorem bare_binaryExponent {x : List Char} {negative : Bool} {es : List Nat}
    (h : BinaryExponent x negative es) : ∃ c more, bare x = c :: more ∧ (c = 'p' ∨ c = 'P') := by
  cases h with
  | @of p cs _ _ hp _ =>
      have hlow : p ≠ '_' := by rintro rfl; exact absurd hp (by decide)
      exact ⟨p, bare cs, bare_cons hlow cs, by simpa using hp⟩

/-- A number whose parts are taken has the value of its digits and its exponent. -/
theorem bind_binaryValue (m : Nat) (e : Int) : (do
    let q ← binaryValue m e
    if ([] : List Char).all isMargin then .ok q else .error .notHexadecimalFloat) =
      binaryValue m e := by
  cases binaryValue m e <;> rfl

/-- The parts of a hexadecimal float are read one after another. -/
theorem readHexadecimalFloat_eq {w f x : List Char} {ws fs es : List Nat} {negative : Bool}
    (hw : Spells 16 w ws) (hf : Spells 16 f fs) (hne : ws ++ fs ≠ [])
    (hx : BinaryExponent x negative es)
    (hrest : rest = '.' :: (f ++ bare x) ∨ fs = [] ∧ rest = bare x) :
    readHexadecimalFloat (w ++ rest) =
      binaryValue (HexDigits.mantissa ⟨ws, fs, negative, es⟩)
        (HexDigits.power ⟨ws, fs, negative, es⟩) := by
  have hexponent := takeBinaryExponent_bare hx
  have hnodigit : ∀ c ∈ (bare x).head?, digitIn? 16 c = none := by
    obtain ⟨c, more, hc, hp⟩ := bare_binaryExponent hx
    rw [hc]
    rintro _ ⟨⟩
    rcases hp with rfl | rfl <;> decide
  have hdigits : (ws.isEmpty && fs.isEmpty) = false := by
    rw [Bool.eq_false_iff]
    simpa using hne
  rw [readHexadecimalFloat.eq_def]
  rcases hrest with rfl | ⟨rfl, rfl⟩
  · have hspan : spanHexadecimal (w ++ '.' :: (f ++ bare x)) = (ws, '.' :: (f ++ bare x)) :=
      spanHexadecimal_append hw (by rintro c ⟨⟩; decide)
    simp only [hspan, spanHexadecimal_append hf hnodigit, hdigits, Bool.false_eq_true, if_false,
      hexponent]
    rw [ofDigits_zero]
    exact bind_binaryValue _ _
  · obtain ⟨c, more, hc, hp⟩ := bare_binaryExponent hx
    have hspan := spanHexadecimal_append hw hnodigit
    have hpoint : c ≠ '.' := by rcases hp with rfl | rfl <;> decide
    simp only [hspan]
    -- the exponent does not begin with a point
    split
    · rename_i e
      rw [hc] at e
      exact absurd (List.cons.inj e).1 hpoint
    · simp only [hdigits, Bool.false_eq_true, if_false, hexponent]
      rw [ofDigits_zero]
      exact bind_binaryValue _ _

/-- **A hexadecimal float is read through double precision**, from its digits and its exponent. -/
theorem floatLiteral_of_hexForm {text : String} {d : HexDigits} (h : HexForm text.toList d) :
    floatLiteral text = (binaryValue d.mantissa d.power).mapError .fault := by
  have marked : ∀ {mark : Char} {cs : List Char}, text.toList = '0' :: mark :: cs →
      mark ∈ ['x', 'X'] →
      floatLiteral text = (readHexadecimalFloat (bare cs)).mapError .fault := by
    intro mark cs ht hm
    have hmark : mark ≠ '_' := by rintro rfl; exact absurd hm (by decide)
    have hhas : hasMark ['x', 'X'] ('0' :: mark :: bare cs) = true := by
      rwa [hasMark, List.contains_eq_mem, decide_eq_true_iff]
    rw [floatLiteral, withoutLowLines_of ht, bare_cons (by decide), bare_cons hmark, if_pos hhas]
    rfl
  have point : ∀ cs : List Char, bare ('.' :: cs) = '.' :: bare cs := bare_cons (by decide)
  generalize htext : text.toList = all at h
  cases h with
  | @point mark w f x ws fs es negative hm hw hf hx =>
      have hspells : Spells 16 (bare f) fs := by
        rcases hf with ⟨rfl, rfl⟩ | hf
        · exact .nil
        · exact hf.spells
      rw [marked htext hm, bare_append, point, bare_append,
        readHexadecimalFloat_eq hw.spells hspells (by simp [hw.ne_nil]) hx (.inl rfl)]
  | @whole mark w x ws es negative hm hw hx =>
      rw [marked htext hm, bare_append,
        readHexadecimalFloat_eq hw.spells .nil (by simp [hw.ne_nil]) hx (.inr ⟨rfl, rfl⟩)]
  | @fraction mark f x fs es negative hm hf hx =>
      have hread := readHexadecimalFloat_eq (w := []) .nil hf.spells (by simp [hf.ne_nil]) hx
        (.inl rfl)
      rw [marked htext hm, point, bare_append, ← hread]
      rfl

end EnumHelpers.Constant
