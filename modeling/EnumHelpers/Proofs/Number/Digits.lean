import EnumHelpers.Number.Fraction
import Mathlib.Data.List.Forall2
import Mathlib.Data.List.TakeDrop
import Mathlib.Data.Nat.Digits.Defs

/-!
# Proofs — digits

What reading a row of digits gives.  Characters *spell* digits of a base when each of them is a
digit of the base, and the number spelled is the positional one, the last digit counting ones.

* `readInteger_spells`: a row of digits is read as the number that it spells, unless the base is no
  power of two and there are more digits than the limit.
* `readInteger_prefixed`: the same behind a zero and the letter of the base.
* `decimalNatural_spells`: the same for the parts of a fraction.
-/

namespace EnumHelpers.Number
open Text

/-- The characters are digits of a base with the given values. -/
def Spells (base : Nat) : List Char → List Nat → Prop :=
  List.Forall₂ fun c d => digitIn? base c = some d

/-- The number that digits spell, the last of them counting ones. -/
def positional (base : Nat) (ds : List Nat) : Nat := Nat.ofDigits base ds.reverse

/-- Whether a row of digits is short enough to be read. -/
def Readable (base : Nat) (ds : List Nat) : Prop :=
  isBinaryBase base = true ∨ ds.length ≤ digitLimit

variable {base : Nat} {cs : List Char} {ds : List Nat}

/-! ### Digits are plain characters -/

theorem digitIn?_eq_some {c : Char} {d : Nat} (h : digitIn? base c = some d) :
    d < base ∧ ((0x30 ≤ c.toNat ∧ c.toNat ≤ 0x39 ∧ d = c.toNat - 0x30) ∨
      (0x41 ≤ c.toNat ∧ c.toNat ≤ 0x5A ∧ d = c.toNat - 0x41 + 10) ∨
      (0x61 ≤ c.toNat ∧ c.toNat ≤ 0x7A ∧ d = c.toNat - 0x61 + 10)) := by
  rw [digitIn?] at h
  split at h
  · rename_i v hv
    split at h
    · rename_i hlt
      cases h
      refine ⟨hlt, ?_⟩
      simp only [digitValue?] at hv
      split at hv
      · rename_i hr
        exact .inl ⟨hr.1, hr.2, (Option.some.inj hv).symm⟩
      · split at hv
        · rename_i hr
          exact .inr (.inl ⟨hr.1, hr.2, (Option.some.inj hv).symm⟩)
        · split at hv
          · rename_i hr
            exact .inr (.inr ⟨hr.1, hr.2, (Option.some.inj hv).symm⟩)
          · cases hv
    · cases h
  · cases h

/-- A digit of a base is no blank, sign or low line, and stands for itself. -/
structure IsPlain (c : Char) : Prop where
  lt : c.toNat < 128
  margin : isMargin c = false
  blank : isBlank c = false
  lowLine : c ≠ '_'
  minus : c ≠ '-'
  plus : c ≠ '+'

theorem isPlain_of_toNat {c : Char} (h : (0x30 ≤ c.toNat ∧ c.toNat ≤ 0x39) ∨
    (0x41 ≤ c.toNat ∧ c.toNat ≤ 0x5A) ∨ (0x61 ≤ c.toNat ∧ c.toNat ≤ 0x7A)) : IsPlain c := by
  have ne : ∀ {n : Nat} {k : Char}, k.toNat = n → c.toNat ≠ n → c ≠ k := by
    rintro n k hk hc rfl
    exact hc hk
  refine ⟨by omega, ?_, ?_, ne (n := 0x5F) rfl (by omega), ne (n := 0x2D) rfl (by omega),
    ne (n := 0x2B) rfl (by omega)⟩
  · have hspace : c ≠ ' ' := ne (n := 0x20) rfl (by omega)
    simp only [isMargin, beq_eq_false_iff_ne.mpr hspace, Bool.false_or, Bool.and_eq_false_iff,
      decide_eq_false_iff_not]
    omega
  · simp only [isBlank, Bool.or_eq_false_iff, Bool.and_eq_false_iff, decide_eq_false_iff_not,
      beq_eq_false_iff_ne]
    omega

theorem isPlain_of_digitIn? {c : Char} {d : Nat} (h : digitIn? base c = some d) : IsPlain c := by
  obtain ⟨-, hr⟩ := digitIn?_eq_some h
  exact isPlain_of_toNat (by omega)

theorem plainChar_of_isPlain {c : Char} (h : IsPlain c) : plainChar c = c := by
  rw [plainChar, if_pos h.lt]

theorem Spells.digit (h : Spells base cs ds) : ∀ c ∈ cs, ∃ d, digitIn? base c = some d := by
  induction h with
  | nil => simp
  | cons hc _ ih => exact List.forall_mem_cons.mpr ⟨⟨_, hc⟩, ih⟩

theorem Spells.isPlain (h : Spells base cs ds) : ∀ c ∈ cs, IsPlain c := by
  intro c hc
  obtain ⟨d, hd⟩ := h.digit c hc
  exact isPlain_of_digitIn? hd

theorem Spells.length_eq (h : Spells base cs ds) : cs.length = ds.length :=
  List.Forall₂.length_eq h

theorem map_plainChar (h : ∀ c ∈ cs, IsPlain c) : cs.map plainChar = cs :=
  (List.map_congr_left fun c hc => plainChar_of_isPlain (h c hc)).trans (List.map_id cs)

/-! ### Integers -/

theorem ofDigits_eq (acc : Nat) (ds : List Nat) :
    ofDigits base acc ds = positional base ds + base ^ ds.length * acc := by
  induction ds generalizing acc with
  | nil => simp [ofDigits, positional]
  | cons d ds ih =>
      rw [ofDigits, ih, positional, positional, List.reverse_cons, Nat.ofDigits_append,
        List.length_reverse, Nat.ofDigits_singleton, List.length_cons, pow_succ]
      ring

theorem ofDigits_zero (ds : List Nat) : ofDigits base 0 ds = positional base ds := by
  rw [ofDigits_eq, Nat.mul_zero, Nat.add_zero]

theorem takeDigits_spells (h : Spells base cs ds) : takeDigits base false cs = some (ds, []) := by
  induction h with
  | nil => rfl
  | cons hc _ ih =>
      rw [takeDigits, if_neg (isPlain_of_digitIn? hc).lowLine]
      simp only [hc, ih, Option.map_some]

/-- The letter that marks a base is no digit of it. -/
theorem prefixBase?_ne_of_digitIn? {c : Char} {d : Nat} (h : digitIn? base c = some d) :
    prefixBase? c ≠ some base := by
  intro hp
  obtain ⟨hlt, hr⟩ := digitIn?_eq_some h
  rw [prefixBase?] at hp
  split at hp
  · rename_i hc
    cases hp
    rcases hc with rfl | rfl <;> simp at hr <;> omega
  · split at hp
    · rename_i hc
      cases hp
      rcases hc with rfl | rfl <;> simp at hr <;> omega
    · split at hp
      · rename_i hc
        cases hp
        rcases hc with rfl | rfl <;> simp at hr <;> omega
      · cases hp

theorem chooseBase_spells (hb : base ≠ 0) (h : Spells base cs ds) :
    chooseBase base cs = (base, cs, false) := by
  unfold chooseBase
  split
  · rename_i x rest
    obtain ⟨d, hd⟩ := h.digit x (by simp)
    have hx := prefixBase?_ne_of_digitIn? hd
    dsimp only
    split
    · rename_i b hp
      have hne : base ≠ b := fun e => hx (e ▸ hp)
      simp [hb, hne]
    · rw [if_neg hb]
  · rw [if_neg hb]
  · rw [if_neg hb]

/-- What a base reads of a row of digits that stands alone. -/
def readOf (base : Nat) (ds : List Nat) : Except Fault Nat :=
  if !isBinaryBase base && digitLimit < ds.length then .error (.tooManyDigits ds.length)
  else .ok (positional base ds)

theorem readOf_of_readable (h : Readable base ds) : readOf base ds = .ok (positional base ds) := by
  rw [readOf, if_neg]
  rcases h with h | h
  · simp [h]
  · simp [Nat.not_lt.mpr h]

theorem readOf_of_not_readable (h : ¬ Readable base ds) :
    readOf base ds = .error (.tooManyDigits ds.length) := by
  simp only [Readable, not_or, not_le] at h
  rw [readOf, if_pos]
  simpa using h

/-- Digits are read once the base is chosen. -/
theorem readNatural_of_chooseBase {b : Nat} {text : String} {all : List Char}
    (hc : chooseBase b all = (base, cs, false)) (h : Spells base cs ds) (hne : cs ≠ []) :
    readNatural b text all = readOf base ds := by
  obtain ⟨c, rest, rfl⟩ := List.exists_cons_of_ne_nil hne
  have hlow : (c :: rest).head? ≠ some '_' := by
    simpa using (h.isPlain c List.mem_cons_self).lowLine
  have hds : ds.isEmpty = false := by
    cases h
    rfl
  rw [readNatural, hc]
  simp only [if_neg hlow, takeDigits_spells h, ofDigits_zero, hds, List.all_nil, Bool.not_true,
    Bool.false_and, Bool.or_false, Bool.false_eq_true, if_false]
  rfl

theorem readNatural_spells {text : String} (hb : base ≠ 0) (h : Spells base cs ds) (hne : cs ≠ []) :
    readNatural base text cs = readOf base ds :=
  readNatural_of_chooseBase (chooseBase_spells hb h) h hne

theorem readInteger_minus (cs : List Char) : readInteger base (String.ofList ('-' :: cs)) =
    (readNatural base (String.ofList ('-' :: cs)) (cs.map plainChar)).map
      fun n : Nat => -(n : Int) := by
  have hminus : plainChar '-' = '-' ∧ isMargin '-' = false := by decide
  rw [readInteger, String.toList_ofList, List.map_cons, hminus.1,
    List.dropWhile_cons_of_neg (by rw [hminus.2]; exact Bool.false_ne_true)]
  split
  · rename_i heq
    cases heq
    cases readNatural base (String.ofList ('-' :: cs)) (cs.map plainChar) <;> rfl
  · rename_i heq
    cases heq
  · rename_i hne _
    exact absurd rfl (hne _)

theorem readInteger_plus (cs : List Char) : readInteger base (String.ofList ('+' :: cs)) =
    (readNatural base (String.ofList ('+' :: cs)) (cs.map plainChar)).map
      fun n : Nat => (n : Int) := by
  have hplus : plainChar '+' = '+' ∧ isMargin '+' = false := by decide
  rw [readInteger, String.toList_ofList, List.map_cons, hplus.1,
    List.dropWhile_cons_of_neg (by rw [hplus.2]; exact Bool.false_ne_true)]
  split
  · rename_i heq
    cases heq
  · rename_i heq
    cases heq
    cases readNatural base (String.ofList ('+' :: cs)) (cs.map plainChar) <;> rfl
  · rename_i hne
    exact absurd rfl (hne _)

theorem readInteger_unsigned {c : Char} {rest : List Char} (h : cs.map plainChar = c :: rest)
    (hc : IsPlain c) : readInteger base (String.ofList cs) =
      (readNatural base (String.ofList cs) (cs.map plainChar)).map fun n : Nat => (n : Int) := by
  rw [readInteger, String.toList_ofList, h,
    List.dropWhile_cons_of_neg (by rw [hc.margin]; exact Bool.false_ne_true)]
  split
  · rename_i heq
    exact absurd (List.cons.inj heq).1 hc.minus
  · rename_i heq
    exact absurd (List.cons.inj heq).1 hc.plus
  · cases readNatural base (String.ofList cs) (c :: rest) <;> rfl

/-- A text without blanks and sign is read as a natural number. -/
theorem readInteger_of_isPlain (h : ∀ c ∈ cs, IsPlain c) (hne : cs ≠ []) :
    readInteger base (String.ofList cs) =
      (readNatural base (String.ofList cs) cs).map fun n : Nat => (n : Int) := by
  obtain ⟨c, rest, rfl⟩ := List.exists_cons_of_ne_nil hne
  have hmap := map_plainChar h
  rw [readInteger_unsigned hmap (h c List.mem_cons_self), hmap]

/-- **A row of digits is read as the number that it spells.** -/
theorem readInteger_spells (hb : base ≠ 0) (h : Spells base cs ds) (hne : cs ≠ []) :
    readInteger base (String.ofList cs) = (readOf base ds).map fun n : Nat => (n : Int) := by
  rw [readInteger_of_isPlain h.isPlain hne, readNatural_spells hb h hne]

/-- The letter that marks a base is no blank, sign or low line. -/
theorem isPlain_of_prefixBase? {mark : Char} (h : prefixBase? mark = some base) :
    IsPlain mark := by
  refine isPlain_of_toNat ?_
  rw [prefixBase?] at h
  split_ifs at h with hx ho hb
  · rcases hx with rfl | rfl <;> decide
  · rcases ho with rfl | rfl <;> decide
  · rcases hb with rfl | rfl <;> decide

/-- Behind a zero and the letter of a base, digits are read in the base. -/
theorem readInteger_prefixed {mark : Char} (hm : prefixBase? mark = some base)
    (h : Spells base cs ds) (hne : cs ≠ []) :
    readInteger 0 (String.ofList ('0' :: mark :: cs)) =
      (readOf base ds).map fun n : Nat => (n : Int) := by
  have hplain : ∀ c ∈ '0' :: mark :: cs, IsPlain c := by
    simp only [List.forall_mem_cons]
    exact ⟨isPlain_of_toNat (by decide), isPlain_of_prefixBase? hm, h.isPlain⟩
  have hlow : cs.head? ≠ some '_' := fun e =>
    (h.isPlain _ (List.mem_of_mem_head? e)).lowLine rfl
  have hbase : chooseBase 0 ('0' :: mark :: cs) = (base, cs, false) := by
    simp [chooseBase, hlow, hm]
  rw [readInteger_of_isPlain hplain (List.cons_ne_nil _ _), readNatural_of_chooseBase hbase h hne]

/-! ### Fractions -/

theorem isDecimal_of_digitIn? {c : Char} {d : Nat} (h : digitIn? 10 c = some d) :
    isDecimal c = true := by
  obtain ⟨hlt, hr⟩ := digitIn?_eq_some h
  have hc : ¬ c.toNat < 0x30 ∧ c.toNat < 0x30 + 10 := by omega
  rw [isDecimal, decimalValue?, zeros, digitAbove, if_neg hc.1, if_pos hc.2]
  rfl

/-- The digits at the front of a text end where a character is no digit. -/
theorem spanDecimal_append {rest : List Char} (h : Spells 10 cs ds)
    (hr : ∀ c ∈ rest.head?, isDecimal c = false) : spanDecimal (cs ++ rest) = (cs, rest) := by
  have hcs : ∀ c ∈ cs, isDecimal c = true := fun c hc => by
    obtain ⟨d, hd⟩ := h.digit c hc
    exact isDecimal_of_digitIn? hd
  have htake : rest.takeWhile isDecimal = [] ∧ rest.dropWhile isDecimal = rest := by
    cases rest with
    | nil => exact ⟨rfl, rfl⟩
    | cons c rest => simp [hr c rfl]
  rw [spanDecimal, List.span_eq_takeWhile_dropWhile, List.takeWhile_append_of_pos hcs,
    List.dropWhile_append_of_pos hcs, htake.1, htake.2, List.append_nil]

/-- **A part of a fraction is read as the number that it spells**, no digits as zero. -/
theorem decimalNatural_spells (h : Spells 10 cs ds) : decimalNatural cs = readOf 10 ds := by
  rw [decimalNatural]
  split
  · rename_i he
    rw [List.isEmpty_iff] at he
    subst he
    cases h
    rfl
  · rename_i hne
    rw [map_plainChar h.isPlain]
    exact readNatural_spells (by decide) h (by simpa using hne)

end EnumHelpers.Number
