import EnumHelpers.Constant.Literal
import EnumHelpers.Proofs.Number.Digits
import EnumHelpers.Proofs.Outcome
import Mathlib.Data.Rat.Lemmas
import Mathlib.Tactic.FieldSimp

/-!
# Proofs — literals

The forms of integer, rune and decimal floating-point literals, and the number that each form
denotes.  The forms are relations between the characters of a literal and its digits; the digits
of an integer or of a part of a float may be too many to be read (`Readable`), and a literal of
digits that can be read has the value that it denotes.

* `integerLiteral_eq`, `runeLiteral_eq`: the value of a literal is the number it spells.
* `floatLiteral_eq_ok`: a decimal float is exact.
* `floatLiteral_eq_error`: a float with too many digits in one part has no value.
-/

namespace EnumHelpers.Constant
open Number Text

/-! ### Digits with low lines -/

/-- Digits of a base, with single low lines between some of them. -/
inductive DigitRun (base : Nat) : List Char → List Nat → Prop where
  | last {c : Char} {d : Nat} : digitIn? base c = some d → DigitRun base [c] [d]
  | next {c : Char} {d : Nat} {cs : List Char} {ds : List Nat} :
      digitIn? base c = some d → DigitRun base cs ds → DigitRun base (c :: cs) (d :: ds)
  | gap {c : Char} {d : Nat} {cs : List Char} {ds : List Nat} :
      digitIn? base c = some d → DigitRun base cs ds → DigitRun base (c :: '_' :: cs) (d :: ds)

/-- Digits behind a prefix: a low line may stand before the first of them. -/
inductive PrefixedRun (base : Nat) : List Char → List Nat → Prop where
  | direct {cs : List Char} {ds : List Nat} : DigitRun base cs ds → PrefixedRun base cs ds
  | gap {cs : List Char} {ds : List Nat} :
      DigitRun base cs ds → PrefixedRun base ('_' :: cs) ds

/-- The characters without the low lines. -/
def bare (cs : List Char) : List Char := cs.filter (· ≠ '_')

theorem withoutLowLines_of {text : String} {cs : List Char} (h : text.toList = cs) :
    withoutLowLines text = bare cs := h ▸ rfl

theorem bare_append (a b : List Char) : bare (a ++ b) = bare a ++ bare b :=
  List.filter_append a b

theorem bare_cons {c : Char} (h : c ≠ '_') (cs : List Char) : bare (c :: cs) = c :: bare cs := by
  simp [bare, h]

theorem bare_lowLine (cs : List Char) : bare ('_' :: cs) = bare cs := rfl

variable {base : Nat} {cs : List Char} {ds : List Nat}

theorem DigitRun.spells (h : DigitRun base cs ds) : Spells base (bare cs) ds := by
  induction h with
  | last hc =>
      rw [bare_cons (isPlain_of_digitIn? hc).lowLine]
      exact .cons hc .nil
  | next hc _ ih =>
      rw [bare_cons (isPlain_of_digitIn? hc).lowLine]
      exact .cons hc ih
  | gap hc _ ih =>
      rw [bare_cons (isPlain_of_digitIn? hc).lowLine, bare_lowLine]
      exact .cons hc ih

theorem DigitRun.ne_nil (h : DigitRun base cs ds) : ds ≠ [] := by
  cases h <;> exact List.cons_ne_nil _ _

/-- Digits without low lines between them. -/
theorem DigitRun.of_spells (h : Spells base cs ds) (hne : ds ≠ []) : DigitRun base cs ds := by
  induction h with
  | nil => exact absurd rfl hne
  | cons hc h ih =>
      cases h with
      | nil => exact .last hc
      | cons hc' h => exact .next hc (ih (List.cons_ne_nil _ _))

theorem PrefixedRun.spells (h : PrefixedRun base cs ds) : Spells base (bare cs) ds := by
  cases h with
  | direct h => exact h.spells
  | gap h => exact h.spells

theorem PrefixedRun.ne_nil (h : PrefixedRun base cs ds) : ds ≠ [] := by
  cases h with
  | direct h => exact h.ne_nil
  | gap h => exact h.ne_nil

theorem spells_ne_nil (h : Spells base cs ds) (hne : ds ≠ []) : cs ≠ [] := by
  rintro rfl
  cases h
  exact hne rfl

/-! ### Integer literals -/

/-- The forms of an integer literal, with its base and its digits. -/
inductive IntegerForm : List Char → Nat → List Nat → Prop where
  | zero : IntegerForm ['0'] 10 [0]
  | decimal {cs : List Char} {d : Nat} {ds : List Nat} :
      DigitRun 10 cs (d :: ds) → d ≠ 0 → IntegerForm cs 10 (d :: ds)
  | octal {cs : List Char} {ds : List Nat} : PrefixedRun 8 cs ds → IntegerForm ('0' :: cs) 8 ds
  | marked {mark : Char} {base : Nat} {cs : List Char} {ds : List Nat} :
      prefixBase? mark = some base → PrefixedRun base cs ds →
        IntegerForm ('0' :: mark :: cs) base ds

/-- An integer without a letter is read in base ten, or in base eight behind a zero. -/
theorem integerLiteral_unmarked {text : String} (hcs : withoutLowLines text = cs)
    (h : Spells base cs ds) (hne : ds ≠ [])
    (hm : hasMark ['x', 'X', 'b', 'B', 'o', 'O'] cs = false)
    (hb : (cs.head? = some '0' ∧ 1 < cs.length) ∧ base = 8 ∨
      ¬ (cs.head? = some '0' ∧ 1 < cs.length) ∧ base = 10) :
    integerLiteral text = ((readOf base ds).map fun n : Nat => (n : Int)).mapError .fault := by
  have hbase : base ≠ 0 := by
    rcases hb with ⟨-, rfl⟩ | ⟨-, rfl⟩ <;> decide
  rw [← readInteger_spells hbase h (spells_ne_nil h hne)]
  subst hcs
  simp only [integerLiteral, hm, Bool.false_eq_true, if_false]
  rcases hb with ⟨hl, rfl⟩ | ⟨hl, rfl⟩
  · rw [if_pos hl]
  · rw [if_neg hl]

theorem hasMark_of_head?_ne {marks : List Char} (h : cs.head? ≠ some '0') :
    hasMark marks cs = false := by
  unfold hasMark
  split
  · exact absurd rfl h
  · rfl

theorem hasMark_of_spells {marks : List Char} (h : Spells base cs ds)
    (hm : ∀ m ∈ marks, digitIn? base m = none) : hasMark marks ('0' :: cs) = false := by
  cases h with
  | nil => rfl
  | cons hc _ =>
      rw [hasMark, List.contains_eq_mem, decide_eq_false_iff_not]
      intro hmem
      rw [hm _ hmem] at hc
      cases hc

theorem prefixBase?_eq_some {mark : Char} (h : prefixBase? mark = some base) :
    mark ∈ ['x', 'X', 'b', 'B', 'o', 'O'] := by
  simp only [prefixBase?] at h
  split at h
  · rename_i hc
    rcases hc with rfl | rfl <;> simp
  · split at h
    · rename_i hc
      rcases hc with rfl | rfl <;> simp
    · split at h
      · rename_i hc
        rcases hc with rfl | rfl <;> simp
      · cases h

theorem head?_bare_ne_zero {d : Nat} (h : Spells base cs (d :: ds)) (hd : d ≠ 0)
    (hb : 0 < base) : cs.head? ≠ some '0' := by
  intro e
  cases h with
  | cons hc _ =>
      cases e
      simp only [digitIn?, digitValue?] at hc
      simp [hb] at hc
      exact hd hc.symm

theorem positional_zero_cons (base : Nat) (ds : List Nat) :
    positional base (0 :: ds) = positional base ds := by
  simp [positional, Nat.ofDigits_append]

/-- **An integer literal is the number that it spells.** -/
theorem integerLiteral_eq {text : String} (h : IntegerForm text.toList base ds) :
    integerLiteral text = ((readOf base ds).map fun n : Nat => (n : Int)).mapError .fault := by
  generalize hcs : text.toList = cs at h
  have hbare := withoutLowLines_of hcs
  cases h with
  | zero =>
      exact integerLiteral_unmarked hbare (.cons rfl .nil) (List.cons_ne_nil _ _) rfl
        (.inr ⟨fun h => absurd h.2 (by decide), rfl⟩)
  | decimal h hd =>
      have hhead := head?_bare_ne_zero h.spells hd (by decide)
      exact integerLiteral_unmarked hbare h.spells (List.cons_ne_nil _ _)
        (hasMark_of_head?_ne hhead) (.inr ⟨fun h => hhead h.1, rfl⟩)
  | @octal cs _ h =>
      have hlen : 0 < (bare cs).length :=
        List.length_pos_iff.mpr (spells_ne_nil h.spells h.ne_nil)
      have hs : Spells 8 ('0' :: bare cs) (0 :: ds) := .cons rfl h.spells
      have hmarks : ∀ m ∈ ['x', 'X', 'b', 'B', 'o', 'O'], digitIn? 8 m = none := by
        simp only [List.mem_cons, List.not_mem_nil, or_false, forall_eq_or_imp, forall_eq]
        decide
      rw [bare_cons (by decide)] at hbare
      rw [integerLiteral_unmarked hbare hs (List.cons_ne_nil _ _)
        (hasMark_of_spells h.spells hmarks)
        (.inl ⟨⟨rfl, by rw [List.length_cons]; omega⟩, rfl⟩), readOf_of_readable (.inl rfl),
        readOf_of_readable (.inl rfl), positional_zero_cons]
  | @marked mark _ cs _ hm h =>
      have hmem := prefixBase?_eq_some hm
      have hmark : mark ≠ '_' := fun e => by simp [e] at hmem
      have hhas : hasMark ['x', 'X', 'b', 'B', 'o', 'O'] ('0' :: mark :: bare cs) = true := by
        rwa [hasMark, List.contains_eq_mem, decide_eq_true_iff]
      rw [bare_cons (by decide), bare_cons hmark] at hbare
      rw [← readInteger_prefixed hm h.spells (spells_ne_nil h.spells h.ne_nil)]
      simp only [integerLiteral, hbare, hhas, if_true]

/-! ### Rune literals -/

/-- The escapes of a rune literal that are a single letter. -/
def letterEscapes : List (Char × Nat) := [
  ('a', 0x07), ('b', 0x08), ('f', 0x0C), ('n', 0x0A), ('r', 0x0D), ('t', 0x09), ('v', 0x0B),
  ('\\', 0x5C), ('\'', 0x27)]

/-- The escapes of a rune literal that are a letter and a fixed number of hexadecimal digits. -/
def hexEscapes : List (Char × Nat) := [('x', 2), ('u', 4), ('U', 8)]

/-- What stands between the quotes of a rune literal, with the code point. -/
inductive RuneForm : List Char → Nat → Prop where
  | char {c : Char} : c ∉ ['\'', '\\', '\n'] → RuneForm [c] c.toNat
  | letter {c : Char} {n : Nat} : (c, n) ∈ letterEscapes → RuneForm ['\\', c] n
  | hex {mark : Char} {count : Nat} {cs : List Char} {ds : List Nat} :
      (mark, count) ∈ hexEscapes → Spells 16 cs ds → ds.length = count →
        (positional 16 ds).isValidChar → RuneForm ('\\' :: mark :: cs) (positional 16 ds)
  | octal {cs : List Char} {ds : List Nat} :
      Spells 8 cs ds → ds.length = 3 → positional 8 ds < 256 →
        RuneForm ('\\' :: cs) (positional 8 ds)

/-- A row of digits of a binary base is read whatever its length. -/
theorem readInteger_binary (hb : isBinaryBase base = true) (h : Spells base cs ds) (hne : ds ≠ []) :
    (readInteger base (String.ofList cs)).mapError Failure.fault =
      .ok (positional base ds : Int) := by
  have hbase : base ≠ 0 := by
    rintro rfl
    simp [isBinaryBase] at hb
  rw [readInteger_spells hbase h (spells_ne_nil h hne), readOf_of_readable (.inl hb)]
  rfl

theorem mem_octalDigits {c : Char} {d : Nat} (h : digitIn? 8 c = some d) :
    c ∈ ['0', '1', '2', '3', '4', '5', '6', '7'] := by
  obtain ⟨hlt, hr⟩ := digitIn?_eq_some h
  have hn : c.toNat - 0x30 < 8 ∧ c.toNat = 0x30 + (c.toNat - 0x30) := by omega
  have digits : ∀ k < 8, Char.ofNat (0x30 + k) ∈ ['0', '1', '2', '3', '4', '5', '6', '7'] := by
    decide
  rw [← Char.ofNat_toNat c, hn.2]
  exact digits _ hn.1

/-- What stands between the quotes of a rune literal, with the number that it spells, whether that
is a code point or not. -/
inductive RuneSpelling : List Char → Nat → Prop where
  | char {c : Char} : c ≠ '\\' → RuneSpelling [c] c.toNat
  | letter {c : Char} {n : Nat} : runeEscape? c = some (n : Int) → RuneSpelling ['\\', c] n
  | hex {mark : Char} {cs : List Char} {ds : List Nat} :
      mark ∈ ['x', 'u', 'U'] → Spells 16 cs ds → ds ≠ [] →
        RuneSpelling ('\\' :: mark :: cs) (positional 16 ds)
  | octal {cs : List Char} {ds : List Nat} :
      Spells 8 cs ds → ds ≠ [] → RuneSpelling ('\\' :: cs) (positional 8 ds)

theorem RuneForm.spelling {n : Nat} (h : RuneForm cs n) : RuneSpelling cs n := by
  cases h with
  | char hc => exact .char fun e => hc (by simp [e])
  | letter hc =>
      refine .letter ?_
      simp only [letterEscapes, List.mem_cons, List.not_mem_nil, or_false, Prod.mk.injEq] at hc
      rcases hc with h | h | h | h | h | h | h | h | h
      all_goals
        obtain ⟨rfl, rfl⟩ := h
        rfl
  | hex hm h hlen =>
      simp only [hexEscapes, List.mem_cons, List.not_mem_nil, or_false, Prod.mk.injEq] at hm
      refine .hex ?_ h ?_
      · rcases hm with ⟨rfl, -⟩ | ⟨rfl, -⟩ | ⟨rfl, -⟩ <;> decide
      · rintro rfl
        rw [List.length_nil] at hlen
        omega
  | octal h hlen =>
      refine .octal h ?_
      rintro rfl
      exact absurd hlen (by decide)

/-- A rune literal is the number that it spells. -/
theorem runeLiteral_of_spelling {text : String} {n : Nat}
    (h : RuneSpelling cs n) (ht : text.toList = '\'' :: cs ++ ['\'']) :
    runeLiteral text = .ok n := by
  have hbody : (text.toList.drop 1).dropLast = cs := by
    rw [ht, List.cons_append, List.drop_one, List.tail_cons, List.dropLast_concat]
  rw [runeLiteral, hbody]
  cases h with
  | @char c hc =>
      unfold runeBody
      split
      · rename_i e
        cases e
      · rename_i e
        cases e
        exact absurd rfl hc
      · rename_i e
        cases e
        rfl
      · rename_i hne
        exact absurd rfl (hne c)
  | letter hc => simp only [runeBody, hc]
  | hex hm h hne =>
      have hread := readInteger_binary (by decide) h hne
      simp only [List.mem_cons, List.not_mem_nil, or_false] at hm
      rcases hm with rfl | rfl | rfl
      all_goals exact hread
  | @octal cs ds h hne =>
      have hread := readInteger_binary (by decide) h hne
      cases h with
      | nil => exact absurd rfl hne
      | cons hk _ =>
          have hmem := mem_octalDigits hk
          simp only [List.mem_cons, List.not_mem_nil, or_false] at hmem
          rcases hmem with rfl | rfl | rfl | rfl | rfl | rfl | rfl | rfl
          all_goals exact hread

/-- **A rune literal is the code point that it names.** -/
theorem runeLiteral_eq {text : String} {n : Nat}
    (h : RuneForm cs n) (ht : text.toList = '\'' :: cs ++ ['\'']) :
    runeLiteral text = .ok n :=
  runeLiteral_of_spelling h.spelling ht

/-! ### Decimal floating-point literals -/

/-- The digits of a decimal floating-point literal: before the point, behind it, and those of the
exponent with its sign. -/
structure FloatDigits where
  whole : List Nat
  fraction : List Nat
  exponent : Option (Bool × List Nat)

/-- No digits, or a row of them. -/
inductive OptionalRun : List Char → List Nat → Prop where
  | none : OptionalRun [] []
  | some {cs : List Char} {ds : List Nat} : DigitRun 10 cs ds → OptionalRun cs ds

/-- The forms of an exponent. -/
inductive ExponentForm : List Char → Bool × List Nat → Prop where
  | plain {e : Char} {cs : List Char} {ds : List Nat} :
      e ∈ ['e', 'E'] → DigitRun 10 cs ds → ExponentForm (e :: cs) (false, ds)
  | plus {e : Char} {cs : List Char} {ds : List Nat} :
      e ∈ ['e', 'E'] → DigitRun 10 cs ds → ExponentForm (e :: '+' :: cs) (false, ds)
  | minus {e : Char} {cs : List Char} {ds : List Nat} :
      e ∈ ['e', 'E'] → DigitRun 10 cs ds → ExponentForm (e :: '-' :: cs) (true, ds)

/-- No exponent, or one. -/
inductive OptionalExponent : List Char → Option (Bool × List Nat) → Prop where
  | none : OptionalExponent [] none
  | some {cs : List Char} {e : Bool × List Nat} : ExponentForm cs e → OptionalExponent cs (some e)

/-- The forms of a decimal floating-point literal. -/
inductive FloatForm : List Char → FloatDigits → Prop where
  | point {w f x : List Char} {ws fs : List Nat} {e : Option (Bool × List Nat)} :
      DigitRun 10 w ws → OptionalRun f fs → OptionalExponent x e →
        FloatForm (w ++ '.' :: (f ++ x)) ⟨ws, fs, e⟩
  | fraction {f x : List Char} {fs : List Nat} {e : Option (Bool × List Nat)} :
      DigitRun 10 f fs → OptionalExponent x e → FloatForm ('.' :: (f ++ x)) ⟨[], fs, e⟩
  | whole {w x : List Char} {ws : List Nat} {e : Bool × List Nat} :
      DigitRun 10 w ws → ExponentForm x e → FloatForm (w ++ x) ⟨ws, [], some e⟩

namespace FloatDigits

/-- The power of ten of the exponent. -/
def power (d : FloatDigits) : Int :=
  match d.exponent with
  | none => 0
  | some (negative, ds) => if negative then -(positional 10 ds : Int) else positional 10 ds

/-- The number that a literal denotes: its digits times a power of ten. -/
def value (d : FloatDigits) : Rat :=
  positional 10 (d.whole ++ d.fraction) * 10 ^ (d.power - d.fraction.length)

/-- Whether every part is short enough to be read. -/
structure Readable (d : FloatDigits) : Prop where
  whole : Number.Readable 10 d.whole
  fraction : Number.Readable 10 d.fraction
  exponent : ∀ e ∈ d.exponent, Number.Readable 10 e.2

end FloatDigits

theorem OptionalRun.spells {cs : List Char} {ds : List Nat} (h : OptionalRun cs ds) :
    Spells 10 (bare cs) ds := by
  cases h with
  | none => exact .nil
  | some h => exact h.spells

/-- Digits of an exponent as characters and as numbers. -/
inductive SpellsExponent : Option (Bool × List Char) → Option (Bool × List Nat) → Prop where
  | none : SpellsExponent none none
  | some {negative : Bool} {cs : List Char} {ds : List Nat} :
      Spells 10 cs ds → SpellsExponent (some (negative, cs)) (some (negative, ds))

/-- A row of digits at the end of a text is taken as a whole. -/
theorem spanDecimal_spells (h : Spells 10 cs ds) : spanDecimal cs = (cs, []) := by
  have hspan := spanDecimal_append h (show ∀ c ∈ ([] : List Char).head?, _ by simp)
  rwa [List.append_nil] at hspan

/-- An exponent is taken from a text as it stands there. -/
theorem takeExponent_bare {x : List Char} {negative : Bool} (h : ExponentForm x (negative, ds)) :
    ∃ digits, Spells 10 digits ds ∧ takeExponent (bare x) = some ((negative, digits), []) := by
  have taken : ∀ {e : Char} {digits : List Char}, e ∈ ['e', 'E'] → Spells 10 digits ds →
      ds ≠ [] → (e = 'e' ∨ e = 'E') ∧ digits.isEmpty = false ∧ spanDecimal digits = (digits, []) :=
    fun he h hne => ⟨by simpa using he, by simpa using spells_ne_nil h hne, spanDecimal_spells h⟩
  have marks : ∀ {e : Char}, e ∈ ['e', 'E'] → e ≠ '_' := by
    intro e he
    rintro rfl
    exact absurd he (by decide)
  cases h with
  | @plain e cs _ he h =>
      refine ⟨bare cs, h.spells, ?_⟩
      obtain ⟨he', hne, hspan⟩ := taken he h.spells h.ne_nil
      have hplain := h.spells.isPlain
      rw [bare_cons (marks he), takeExponent.eq_def]
      dsimp only
      rw [if_pos he']
      -- the digits do not begin with a sign
      generalize bare cs = digits at hplain hne hspan
      split
      · exact absurd rfl (hplain '-' List.mem_cons_self).minus
      · exact absurd rfl (hplain '+' List.mem_cons_self).plus
      · simp only [hspan, hne, Bool.false_eq_true, if_false]
  | @plus e cs _ he h =>
      refine ⟨bare cs, h.spells, ?_⟩
      obtain ⟨he', hne, hspan⟩ := taken he h.spells h.ne_nil
      rw [bare_cons (marks he), bare_cons (by decide), takeExponent.eq_def]
      simp only [if_pos he', hspan, hne, Bool.false_eq_true, if_false]
  | @minus e cs _ he h =>
      refine ⟨bare cs, h.spells, ?_⟩
      obtain ⟨he', hne, hspan⟩ := taken he h.spells h.ne_nil
      rw [bare_cons (marks he), bare_cons (by decide), takeExponent.eq_def]
      simp only [if_pos he', hspan, hne, Bool.false_eq_true, if_false]

/-- What is left of a text behind the digits of a fraction is its exponent. -/
theorem takeExponent_optional {x : List Char} {e : Option (Bool × List Nat)}
    (h : OptionalExponent x e) :
    ∃ digits, SpellsExponent digits e ∧
      (takeExponent (bare x) = digits.map fun d => (d, [])) ∧ (digits = none → bare x = []) := by
  cases h with
  | none => exact ⟨none, .none, rfl, fun _ => rfl⟩
  | @some x e h =>
      obtain ⟨negative, ds⟩ := e
      obtain ⟨digits, hs, ht⟩ := takeExponent_bare h
      exact ⟨some (negative, digits), .some hs, ht, fun h => absurd h (Option.some_ne_none _)⟩

theorem head?_exponent {x : List Char} {e : Bool × List Nat} (h : ExponentForm x e) :
    ∃ c, (bare x).head? = some c ∧ c ∈ ['e', 'E'] := by
  have marks : ∀ {e : Char}, e ∈ ['e', 'E'] → ∀ cs, (bare (e :: cs)).head? = some e := by
    intro e he cs
    rw [bare_cons (by rintro rfl; exact absurd he (by decide))]
    rfl
  cases h with
  | plain he _ => exact ⟨_, marks he _, he⟩
  | plus he _ => exact ⟨_, marks he _, he⟩
  | minus he _ => exact ⟨_, marks he _, he⟩

theorem not_isDecimal_exponent {x : List Char} {e : Option (Bool × List Nat)}
    (h : OptionalExponent x e) : ∀ c ∈ (bare x).head?, isDecimal c = false := by
  cases h with
  | none => rintro c ⟨⟩
  | some h =>
      obtain ⟨c, hc, hm⟩ := head?_exponent h
      rintro c' hc'
      rw [hc, Option.mem_some_iff] at hc'
      subst hc'
      simp only [List.mem_cons, List.not_mem_nil, or_false] at hm
      rcases hm with rfl | rfl <;> decide

/-- A part of a fraction behind its point is taken as it stands there. -/
theorem takeFractionTail_point {f x : List Char} {fs : List Nat} {e : Option (Bool × List Nat)}
    (hf : Spells 10 f fs) (hx : OptionalExponent x e) :
    ∃ digits, SpellsExponent digits e ∧
      takeFractionTail ('.' :: (f ++ bare x)) = (.decimal f digits, []) := by
  obtain ⟨digits, hs, ht, hnil⟩ := takeExponent_optional hx
  refine ⟨digits, hs, ?_⟩
  rw [takeFractionTail.eq_def]
  simp only [spanDecimal_append hf (not_isDecimal_exponent hx), ht]
  cases digits with
  | none => simp [hnil rfl]
  | some d => rfl

theorem takeFractionTail_exponent {x : List Char} {e : Bool × List Nat} (hx : ExponentForm x e) :
    ∃ digits, SpellsExponent digits (some e) ∧
      takeFractionTail (bare x) = (.decimal [] digits, []) := by
  obtain ⟨negative, ds⟩ := e
  obtain ⟨digits, hs, ht⟩ := takeExponent_bare hx
  obtain ⟨c, hc, hm⟩ := head?_exponent hx
  refine ⟨some (negative, digits), .some hs, ?_⟩
  generalize bare x = text at ht hc
  rw [takeFractionTail.eq_def]
  split
  · cases hc
    exact absurd hm (by decide)
  · cases hc
    exact absurd hm (by decide)
  · simp only [ht]

theorem positional_append (base : Nat) (a b : List Nat) :
    positional base (a ++ b) = positional base a * base ^ b.length + positional base b := by
  rw [positional, List.reverse_append, Nat.ofDigits_append, List.length_reverse, positional,
    positional]
  ring

theorem fractionMagnitude_decimal {w f : List Char} {ws fs : List Nat}
    {digits : Option (Bool × List Char)} {e : Option (Bool × List Nat)} (hw : Spells 10 w ws)
    (hf : Spells 10 f fs) (he : SpellsExponent digits e)
    (hr : FloatDigits.Readable ⟨ws, fs, e⟩) :
    fractionMagnitude w (.decimal f digits) = .ok (FloatDigits.value ⟨ws, fs, e⟩) := by
  rw [fractionMagnitude, decimalNatural_spells hw, decimalNatural_spells hf,
    readOf_of_readable hr.whole, readOf_of_readable hr.fraction]
  -- the digits on both sides of the point make one number, over a power of ten
  have hnum : positional 10 (ws ++ fs) =
      positional 10 ws * Nat.pow 10 f.length + positional 10 fs := by
    rw [positional_append, hf.length_eq]
    rfl
  have hten : (10 : Rat) ≠ 0 := by norm_num
  cases he with
  | none =>
      show Except.ok (mkRat _ _) = _
      rw [FloatDigits.value, FloatDigits.power, hnum, Rat.mkRat_eq_div, hf.length_eq,
        zpow_sub₀ hten, zpow_zero, zpow_natCast, Nat.pow_eq, Nat.cast_pow]
      push_cast
      field_simp
  | @some negative cs es he =>
      have hes : decimalNatural cs = .ok (positional 10 es) := by
        rw [decimalNatural_spells he, readOf_of_readable (hr.exponent _ rfl)]
      rw [FloatDigits.value, FloatDigits.power, hnum, zpow_sub₀ hten, zpow_natCast, ok_bind,
        ok_bind]
      dsimp only
      rw [hes, ok_bind]
      cases negative with
      | true =>
          rw [if_pos rfl, if_pos rfl, zpow_neg, zpow_natCast, Rat.mkRat_eq_div, hf.length_eq]
          simp only [Nat.pow_eq]
          push_cast
          field_simp
      | false =>
          rw [if_neg Bool.false_ne_true, if_neg Bool.false_ne_true, zpow_natCast,
            Rat.mkRat_eq_div, hf.length_eq]
          simp only [Nat.pow_eq]
          push_cast
          field_simp

theorem fractionMagnitude_error {w f : List Char} {ws fs : List Nat}
    {digits : Option (Bool × List Char)} {e : Option (Bool × List Nat)} (hw : Spells 10 w ws)
    (hf : Spells 10 f fs) (he : SpellsExponent digits e)
    (hr : ¬ FloatDigits.Readable ⟨ws, fs, e⟩) :
    ∃ cause, fractionMagnitude w (.decimal f digits) = .error cause := by
  rw [fractionMagnitude, decimalNatural_spells hw, decimalNatural_spells hf]
  by_cases hrw : Number.Readable 10 ws
  · by_cases hrf : Number.Readable 10 fs
    · rw [readOf_of_readable hrw, readOf_of_readable hrf, ok_bind, ok_bind]
      cases he with
      | none => exact absurd ⟨hrw, hrf, by rintro _ ⟨⟩⟩ hr
      | @some negative cs es he =>
          have hre : ¬ Number.Readable 10 es := fun h =>
            hr ⟨hrw, hrf, by rintro _ ⟨⟩; exact h⟩
          dsimp only
          rw [decimalNatural_spells he, readOf_of_not_readable hre]
          exact ⟨_, rfl⟩
    · rw [readOf_of_readable hrw, readOf_of_not_readable hrf]
      exact ⟨_, rfl⟩
  · rw [readOf_of_not_readable hrw]
    exact ⟨_, rfl⟩

/-- A text that begins a fraction without blanks and sign is read as its magnitude. -/
theorem readFraction_eq {w rest : List Char} {ws : List Nat} {tail : FractionTail}
    (hw : Spells 10 w ws) (hr : ∀ c ∈ rest.head?, isDecimal c = false)
    (ht : takeFractionTail rest = (tail, []))
    (hb : w ≠ [] ∨ ∃ c r, rest = '.' :: c :: r ∧ isDecimal c = true) :
    readFraction (String.ofList (w ++ rest)) = fractionMagnitude w tail := by
  -- the first character is no blank and no sign
  have hhead : ∃ c more, w ++ rest = c :: more ∧ isBlank c = false ∧ c ≠ '-' ∧ c ≠ '+' := by
    rcases hb with hb | ⟨c, r, rfl, -⟩
    · obtain ⟨c, more, rfl⟩ := List.exists_cons_of_ne_nil hb
      have hplain := hw.isPlain c List.mem_cons_self
      exact ⟨c, more ++ rest, rfl, hplain.blank, hplain.minus, hplain.plus⟩
    · cases w with
      | nil => exact ⟨'.', _, rfl, by decide, by decide, by decide⟩
      | cons c more =>
          have hplain := hw.isPlain c List.mem_cons_self
          exact ⟨c, _, rfl, hplain.blank, hplain.minus, hplain.plus⟩
  obtain ⟨c, more, hc, hblank, hminus, hplus⟩ := hhead
  have htrim : trimStartChars (w ++ rest) = w ++ rest := by
    rw [hc, trimStartChars, List.dropWhile_cons, hblank]
    simp
  have hspan := spanDecimal_append hw hr
  have hmap : ∀ x : Except Number.Fault Rat,
      x.map (fun q => if false = true then -q else q) = x := by
    intro x
    cases x <;> rfl
  rw [hc] at hspan htrim ⊢
  rw [readFraction, String.toList_ofList, htrim]
  split
  rename_i negative body hsign
  split at hsign
  · rename_i e
    exact absurd (List.cons.inj e).1 hminus
  · rename_i e
    exact absurd (List.cons.inj e).1 hplus
  · cases hsign
    simp only [hspan, ht, hmap]
    rw [if_pos]
    rcases hb with hb | ⟨c, r, rfl, hd⟩
    · simp [hb]
    · simp [hd]

theorem not_isDecimal_mark {c : Char} (h : c ∈ ['.', 'e', 'E']) : isDecimal c = false := by
  simp only [List.mem_cons, List.not_mem_nil, or_false] at h
  rcases h with rfl | rfl | rfl <;> decide

/-- The parts of a floating-point literal as they are taken from it. -/
theorem FloatForm.parts {d : FloatDigits} (h : FloatForm cs d) :
    ∃ w rest f digits, bare cs = w ++ rest ∧ Spells 10 w d.whole ∧ Spells 10 f d.fraction ∧
      SpellsExponent digits d.exponent ∧ takeFractionTail rest = (.decimal f digits, []) ∧
      (∀ c ∈ rest.head?, c ∈ ['.', 'e', 'E']) ∧
      (w ≠ [] ∨ ∃ c r, rest = '.' :: c :: r ∧ isDecimal c = true) := by
  have point : ∀ f x : List Char, bare ('.' :: (f ++ x)) = '.' :: (bare f ++ bare x) := by
    intro f x
    rw [bare_cons (by decide), bare_append]
  have head : ∀ more : List Char, ∀ c ∈ ('.' :: more).head?, c ∈ ['.', 'e', 'E'] := by
    rintro more c ⟨⟩
    exact List.mem_cons_self
  cases h with
  | @point w f x ws fs e hw hf hx =>
      obtain ⟨digits, hs, ht⟩ := takeFractionTail_point hf.spells hx
      exact ⟨bare w, _, bare f, digits, by rw [bare_append, point], hw.spells, hf.spells, hs, ht,
        head _, .inl (spells_ne_nil hw.spells hw.ne_nil)⟩
  | @fraction f x fs e hf hx =>
      obtain ⟨digits, hs, ht⟩ := takeFractionTail_point hf.spells hx
      obtain ⟨c, r, hc⟩ := List.exists_cons_of_ne_nil (spells_ne_nil hf.spells hf.ne_nil)
      obtain ⟨v, hv⟩ := hf.spells.digit c (by rw [hc]; exact List.mem_cons_self)
      exact ⟨[], _, bare f, digits, by rw [point]; rfl, .nil, hf.spells, hs, ht, head _,
        .inr ⟨c, r ++ bare x, by rw [hc]; rfl, isDecimal_of_digitIn? hv⟩⟩
  | @whole w x ws e hw hx =>
      obtain ⟨digits, hs, ht⟩ := takeFractionTail_exponent hx
      obtain ⟨c, hc, hm⟩ := head?_exponent hx
      refine ⟨bare w, _, [], digits, bare_append w x, hw.spells, .nil, hs, ht, ?_,
        .inl (spells_ne_nil hw.spells hw.ne_nil)⟩
      rintro c' hc'
      rw [hc, Option.mem_some_iff] at hc'
      exact hc' ▸ List.mem_cons_of_mem _ hm

theorem hasMark_of_parts {w rest : List Char} {ws : List Nat} (hw : Spells 10 w ws)
    (hr : ∀ c ∈ rest.head?, c ∈ ['.', 'e', 'E']) : hasMark ['x', 'X'] (w ++ rest) = false := by
  unfold hasMark
  split
  · rename_i c more e
    rw [List.contains_eq_mem, decide_eq_false_iff_not]
    intro hm
    cases hw with
    | nil =>
        rw [List.nil_append] at e
        exact absurd (hr '0' (by rw [e]; rfl)) (by decide)
    | cons _ hw =>
        obtain ⟨-, e⟩ := List.cons.inj e
        cases hw with
        | nil =>
            have e : rest = c :: more := e
            have hc := hr c (by rw [e]; rfl)
            simp only [List.mem_cons, List.not_mem_nil, or_false] at hm hc
            rcases hm with rfl | rfl <;> exact absurd hc (by decide)
        | cons hd _ =>
            obtain ⟨rfl, -⟩ := List.cons.inj e
            simp only [List.mem_cons, List.not_mem_nil, or_false] at hm
            rcases hm with rfl | rfl <;> cases hd
  · rfl

/-- A floating-point literal is read part by part. -/
theorem floatLiteral_eq {text : String} {d : FloatDigits} (h : FloatForm text.toList d) :
    ∃ w f digits, Spells 10 w d.whole ∧ Spells 10 f d.fraction ∧
      SpellsExponent digits d.exponent ∧
      floatLiteral text = (fractionMagnitude w (.decimal f digits)).mapError .fault := by
  obtain ⟨w, rest, f, digits, hbare, hw, hf, he, ht, hr, hb⟩ := h.parts
  have hdecimal : ∀ c ∈ rest.head?, isDecimal c = false := fun c hc => not_isDecimal_mark (hr c hc)
  refine ⟨w, f, digits, hw, hf, he, ?_⟩
  rw [floatLiteral, withoutLowLines_of rfl, hbare, if_neg (by simp [hasMark_of_parts hw hr]),
    readFraction_eq hw hdecimal ht hb]

/-- **A decimal floating-point literal is exact.** -/
theorem floatLiteral_eq_ok {text : String} {d : FloatDigits} (h : FloatForm text.toList d)
    (hr : d.Readable) : floatLiteral text = .ok d.value := by
  obtain ⟨w, f, digits, hw, hf, he, hread⟩ := floatLiteral_eq h
  rw [hread, fractionMagnitude_decimal hw hf he hr]
  rfl

theorem floatLiteral_eq_error {text : String} {d : FloatDigits} (h : FloatForm text.toList d)
    (hr : ¬ d.Readable) : ∃ fault, floatLiteral text = .error (.fault fault) := by
  obtain ⟨w, f, digits, hw, hf, he, hread⟩ := floatLiteral_eq h
  obtain ⟨fault, hc⟩ := fractionMagnitude_error hw hf he hr
  exact ⟨fault, by rw [hread, hc]; rfl⟩

end EnumHelpers.Constant
