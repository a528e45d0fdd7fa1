import EnumHelpers.Proofs.Constant.Faults
import EnumHelpers.Proofs.Constant.Natural
import EnumHelpers.Proofs.Enum.Failures
import EnumHelpers.Proofs.Number.Script

/-!
# Proofs — the integer of a text

A text that is recorded for a constant is read as an integer twice: in the base that its prefix
names, and, where this fails, in octal if it is made of digits of which the first is a zero.  An
integer literal so has the value that it has in source, except for octal literals with low lines
(`Overlooked`), which are no decimals and not made of digits.  Any text is an integer or is refused,
except for those that look octal and are not (`Misread`).

* `integer_literal_iff`: the integer of a literal, or of a literal behind a sign.
* `unreadable_text_iff`: the texts that are no integers and are not refused.
* `integer_text_iff`: the integer of any text.
-/

namespace EnumHelpers.Recorded
open Number Text Constant

variable {base : Nat} {cs rest : List Char} {ds : List Nat} {s : String} {name : String}

/-! ### Reading twice -/

theorem integer_text_of_ok {n : Int} (h : readInteger 0 (trim s) = .ok n) :
    integer (.exact (.text s)) (.str name) = .ok n := by
  simp only [integer, h]

/-- A text that is no integer is read in octal, or refused. -/
theorem integer_text_of_error (h : ∀ n, readInteger 0 (trim s) ≠ .ok n) :
    integer (.exact (.text s)) (.str name) =
      if looksOctal (trim s).toList then (readInteger 8 (trim s)).mapError .number
      else .error (.value (.notExact name (quoted s))) := by
  simp only [integer, refuse_text]
  cases hread : readInteger 0 (trim s) with
  | ok n => exact absurd hread (h n)
  | error fault => rfl

/-- A text is read as characters without blanks are, and its integer made of their number. -/
structure ReadAs (s : String) (cs : List Char) (f : Nat → Int) : Prop where
  read : ∀ b, readInteger b (trim s) = (readNatural b (trim s) cs).map f
  octal : looksOctal (trim s).toList = looksOctal cs

namespace ReadAs

variable {f : Nat → Int} {b : Nat}

theorem ok (hs : ReadAs s cs f) {n : Nat} (h : readNatural b (trim s) cs = .ok n) :
    readInteger b (trim s) = .ok (f n) := by
  rw [hs.read, h]
  rfl

theorem error (hs : ReadAs s cs f) (h : ∀ n, readNatural b (trim s) cs ≠ .ok n) :
    ∀ n, readInteger b (trim s) ≠ .ok n := by
  intro n hn
  rw [hs.read] at hn
  obtain ⟨m, hm, -⟩ := map_eq_ok.mp hn
  exact h m hm

end ReadAs

/-! ### Characters of literals -/

theorem isPlain_of_digitRun (h : DigitRun base cs ds) {c : Char} (hc : c ∈ cs) :
    c = '_' ∨ IsPlain c :=
  (h.mem hc).imp_right fun ⟨_, _, hd⟩ => isPlain_of_digitIn? hd

theorem isPlain_of_prefixedRun (h : PrefixedRun base cs ds) {c : Char} (hc : c ∈ cs) :
    c = '_' ∨ IsPlain c := by
  cases h with
  | direct h => exact isPlain_of_digitRun h hc
  | gap h => exact (List.mem_cons.mp hc).elim .inl (isPlain_of_digitRun h)

theorem isPlain_of_integerForm (h : IntegerForm cs base ds) {c : Char} (hc : c ∈ cs) :
    c = '_' ∨ IsPlain c := by
  have hzero : IsPlain '0' := isPlain_of_toNat (by decide)
  cases h with
  | zero => exact .inr (List.mem_singleton.mp hc ▸ hzero)
  | decimal h _ => exact isPlain_of_digitRun h hc
  | octal h =>
      rcases List.mem_cons.mp hc with rfl | hc
      · exact .inr hzero
      · exact isPlain_of_prefixedRun h hc
  | marked hm h =>
      rcases List.mem_cons.mp hc with rfl | hc
      · exact .inr hzero
      rcases List.mem_cons.mp hc with rfl | hc
      · exact .inr (isPlain_of_prefixBase? hm)
      · exact isPlain_of_prefixedRun h hc

theorem head_of_integerForm (h : IntegerForm cs base ds) :
    ∃ c rest, cs = c :: rest ∧ IsPlain c := by
  have hzero : IsPlain '0' := isPlain_of_toNat (by decide)
  cases h with
  | zero | octal _ | marked _ _ => exact ⟨_, _, rfl, hzero⟩
  | decimal h _ =>
      obtain ⟨c, rest, d, rfl, hd⟩ := h.head
      exact ⟨c, rest, rfl, isPlain_of_digitIn? hd⟩

theorem map_plainChar_literal (h : IntegerForm cs base ds) : cs.map plainChar = cs := by
  refine (List.map_congr_left fun c hc => ?_).trans (List.map_id cs)
  rcases isPlain_of_integerForm h hc with rfl | hc
  · rfl
  · exact plainChar_of_isPlain hc

theorem isBlank_literal (h : IntegerForm cs base ds) : ∀ c ∈ cs, isBlank c = false := by
  intro c hc
  rcases isPlain_of_integerForm h hc with rfl | hc
  · rfl
  · exact hc.blank

theorem isMargin_literal (h : IntegerForm cs base ds) : ∀ c ∈ cs, isMargin c = false := by
  intro c hc
  rcases isPlain_of_integerForm h hc with rfl | hc
  · rfl
  · exact hc.margin

/-- A literal is read as it stands. -/
theorem readAs_literal {t : String} (h : IntegerForm t.toList base ds) :
    ReadAs t t.toList fun n => n := by
  have htrim : trim t = String.ofList t.toList := by
    rw [trim, trimChars_of_isBlank_eq_false (isBlank_literal h)]
  obtain ⟨c, rest, hcs, hc⟩ := head_of_integerForm h
  have hmap := map_plainChar_literal h
  constructor
  · intro b
    rw [htrim, readInteger_unsigned (hmap.trans hcs) hc, hmap]
  · rw [htrim, String.toList_ofList]

/-- A literal behind a minus is read as the literal is. -/
theorem readAs_minus {t : String} (h : IntegerForm t.toList base ds) :
    ReadAs ("-" ++ t) t.toList fun n => -n := by
  have hcs : ("-" ++ t).toList = '-' :: t.toList := by
    rw [String.toList_append]
    rfl
  have htrim : trim ("-" ++ t) = String.ofList ('-' :: t.toList) := by
    rw [trim, hcs, trimChars_of_isBlank_eq_false]
    exact List.forall_mem_cons.mpr ⟨by decide, isBlank_literal h⟩
  constructor
  · intro b
    rw [htrim, readInteger_minus, map_plainChar_literal h]
  · rw [htrim, String.toList_ofList]
    rfl

/-! ### Octal literals -/

theorem digitRun_of_octal (h : PrefixedRun 8 rest ds) : DigitRun 8 ('0' :: rest) (0 :: ds) := by
  cases h with
  | direct h => exact .next rfl h
  | gap h => exact .gap rfl h

theorem prefixBase?_octal {c : Char} {d : Nat} (h : digitIn? 8 c = some d) :
    prefixBase? c = none := by
  have hmem := mem_octalDigits h
  simp only [List.mem_cons, List.not_mem_nil, or_false] at hmem
  rcases hmem with rfl | rfl | rfl | rfl | rfl | rfl | rfl | rfl <;> rfl

theorem prefixBase?_head_octal (h : PrefixedRun 8 rest ds) :
    ∀ c ∈ rest.head?, prefixBase? c = none := by
  cases h with
  | direct h =>
      obtain ⟨c, rest, d, rfl, hd⟩ := h.head
      rintro _ ⟨⟩
      exact prefixBase?_octal hd
  | gap _ =>
      rintro _ ⟨⟩
      rfl

theorem positional_zeros (h : ∀ d ∈ ds, d = 0) : positional base ds = 0 := by
  induction ds with
  | nil => rfl
  | cons d ds ih =>
      rw [List.forall_mem_cons] at h
      rw [h.1, positional_zero_cons, ih h.2]

/-- The digits of an octal literal that are no decimal behind its zero: one of them is not zero, or
there are too many of them. -/
def NotZeros (ds : List Nat) : Prop := (∃ d ∈ ds, d ≠ 0) ∨ digitLimit ≤ ds.length

/-- An octal literal with a low line in it that is no decimal. -/
def Overlooked (cs : List Char) : Prop :=
  ∃ rest ds, cs = '0' :: rest ∧ PrefixedRun 8 rest ds ∧ '_' ∈ rest ∧ NotZeros ds

/-- Without the letter of a base, what is read behind a zero are zeros. -/
theorem readNatural_zero_octal {text : String} {n : Nat} (h : PrefixedRun 8 rest ds) :
    readNatural 0 text ('0' :: rest) = .ok n ↔ n = 0 ∧ ¬ NotZeros ds := by
  have hrun := digitRun_of_octal h
  have hchoose : chooseBase 0 ('0' :: rest) = (10, '0' :: rest, true) := by
    rw [chooseBase_zero (prefixBase?_head_octal h), if_pos rfl]
  have hmargin := isMargin_literal (.octal h)
  have hzeros : (∀ d ∈ 0 :: ds, d = 0) ↔ ¬ ∃ d ∈ ds, d ≠ 0 := by
    simp only [List.forall_mem_cons, true_and, not_exists, not_and, ne_eq, Decidable.not_not]
  rw [readNatural_eq_ok_iff hchoose hmargin, NotZeros, not_or, not_le, ← hzeros]
  constructor
  · rintro ⟨ds', hrun', hr, hz, rfl⟩
    obtain rfl := hrun.unique hrun'
    rcases hr with hr | hr
    · cases hr
    · exact ⟨positional_zeros (hz rfl), hz rfl, hr⟩
  · rintro ⟨rfl, hz, hlen⟩
    refine ⟨0 :: ds, hrun.mono (by decide), .inr ?_, fun _ => hz, (positional_zeros hz).symm⟩
    rwa [List.length_cons]

theorem readNatural_eight_octal {text : String} (h : PrefixedRun 8 rest ds) :
    readNatural 8 text ('0' :: rest) = .ok (positional 8 ds) := by
  have hchoose : chooseBase 8 ('0' :: rest) = (8, '0' :: rest, false) := by
    rw [chooseBase_zero (prefixBase?_head_octal h), if_neg (by decide)]
  rw [readNatural_eq_ok_iff hchoose (isMargin_literal (.octal h))]
  exact ⟨0 :: ds, digitRun_of_octal h, .inl rfl, nofun, (positional_zero_cons 8 ds).symm⟩

/-- An octal literal is made of digits if and only if it has no low line. -/
theorem looksOctal_octal (h : PrefixedRun 8 rest ds) :
    looksOctal ('0' :: rest) = true ↔ '_' ∉ rest := by
  have hdigits : looksOctal ('0' :: rest) = ('0' :: rest).all isDigit := rfl
  rw [hdigits, List.all_eq_true]
  constructor
  · intro hall hlow
    exact absurd (hall '_' (List.mem_cons_of_mem _ hlow)) (by decide)
  · intro hlow c hc
    rcases (digitRun_of_octal h).mem hc with rfl | ⟨d, -, hd⟩
    · rcases List.mem_cons.mp hc with hc | hc
      · cases hc
      · exact absurd hc hlow
    · rw [isDigit, isDecimal_of_digitIn? (digitIn?_mono (by decide) hd), Bool.true_or]

/-! ### Literals -/

theorem head?_ne_of_decimal {d : Nat} (h : DigitRun 10 cs (d :: ds)) (hd : d ≠ 0) :
    cs.head? ≠ some '0' := by
  have hno : ∀ {c : Char}, digitIn? 10 c = some d → some c ≠ some '0' := by
    rintro c hc ⟨⟩
    exact hd (Option.some.inj hc).symm
  cases h with
  | last hc | next hc _ | gap hc _ => exact hno hc

/-- A literal that has octal digits behind a zero is octal. -/
theorem base_of_octal {ds' : List Nat} (h : IntegerForm ('0' :: rest) base ds)
    (ho : PrefixedRun 8 rest ds') : base = 8 := by
  cases h with
  | zero =>
      cases ho with
      | direct ho => cases ho
  | decimal h hd => exact absurd rfl (head?_ne_of_decimal h hd)
  | octal _ => rfl
  | marked hm _ =>
      rw [prefixBase?_head_octal ho _ rfl] at hm
      cases hm

/-- The literals other than the octal ones are read in the base that their prefix names. -/
theorem readNatural_zero_literal {text : String} (h : IntegerForm cs base ds)
    (hr : Readable base ds) (ho : ∀ rest, cs = '0' :: rest → ¬ PrefixedRun 8 rest ds) :
    readNatural 0 text cs = .ok (positional base ds) := by
  have hany : false = true → ∀ d ∈ ds, d = 0 := fun h => absurd h Bool.false_ne_true
  cases h with
  | zero => rfl
  | @decimal _ d ds h hd =>
      have hmargin := isMargin_literal (.decimal h hd)
      have hchoose : chooseBase 0 cs = (10, cs, false) := by
        rw [chooseBase_of_head?_ne (head?_ne_of_decimal h hd), if_pos rfl]
      exact (readNatural_eq_ok_iff hchoose hmargin).mpr ⟨_, h, hr, hany, rfl⟩
  | octal h => exact absurd h (ho _ rfl)
  | @marked mark _ cs _ hm h =>
      have hmargin := isMargin_literal (.marked hm h)
      simp only [List.forall_mem_cons] at hmargin
      cases h with
      | direct h =>
          obtain ⟨c, rest, d, rfl, hd⟩ := h.head
          have hchoose : chooseBase 0 ('0' :: mark :: c :: rest) = (base, c :: rest, false) := by
            simp [chooseBase, hm, (isPlain_of_digitIn? hd).lowLine]
          exact (readNatural_eq_ok_iff hchoose hmargin.2.2).mpr ⟨_, h, hr, hany, rfl⟩
      | @gap cs _ h =>
          have hchoose : chooseBase 0 ('0' :: mark :: '_' :: cs) = (base, cs, false) := by
            simp [chooseBase, hm]
          exact (readNatural_eq_ok_iff hchoose
            (List.forall_mem_cons.mp hmargin.2.2).2).mpr ⟨_, h, hr, hany, rfl⟩

/-- An octal literal that is no decimal is read in octal, unless there is a low line in it. -/
theorem integer_octal {f : Nat → Int} (hs : ReadAs s ('0' :: rest) f) (h : PrefixedRun 8 rest ds)
    (hzeros : NotZeros ds) : integer (.exact (.text s)) (.str name) =
      if '_' ∈ rest then .error (.value (.notExact name (quoted s)))
      else .ok (f (positional 8 ds)) := by
  have hno : ∀ n, readInteger 0 (trim s) ≠ .ok n :=
    hs.error fun n hn => ((readNatural_zero_octal h).mp hn).2 hzeros
  rw [integer_text_of_error hno, hs.octal]
  by_cases hlow : '_' ∈ rest
  · rw [if_neg fun hl => (looksOctal_octal h).mp hl hlow, if_pos hlow]
  · rw [if_pos ((looksOctal_octal h).mpr hlow), if_neg hlow, hs.ok (readNatural_eight_octal h)]
    rfl

/-- **A literal has its value in a document**, unless it is an overlooked one. -/
theorem integer_literal_iff {f : Nat → Int} (hs : ReadAs s cs f) (h : IntegerForm cs base ds)
    (hr : Readable base ds) :
    integer (.exact (.text s)) (.str name) = .ok (f (positional base ds)) ↔ ¬ Overlooked cs := by
  constructor
  · rintro hread ⟨rest, ds', rfl, hrun, hlow, hzeros⟩
    rw [integer_octal hs hrun hzeros, if_pos hlow] at hread
    cases hread
  · intro hover
    by_cases ho : ∃ rest, cs = '0' :: rest ∧ PrefixedRun 8 rest ds
    · obtain ⟨rest, rfl, hrun⟩ := ho
      obtain rfl := base_of_octal h hrun
      by_cases hzeros : NotZeros ds
      · have hlow : '_' ∉ rest := fun hlow => hover ⟨rest, ds, rfl, hrun, hlow, hzeros⟩
        rw [integer_octal hs hrun hzeros, if_neg hlow]
      · have hz : ∀ d ∈ ds, d = 0 := by
          simpa using (not_or.mp hzeros).1
        rw [positional_zeros hz]
        exact integer_text_of_ok (hs.ok ((readNatural_zero_octal hrun).mpr ⟨rfl, hzeros⟩))
    · simp only [not_exists, not_and] at ho
      exact integer_text_of_ok (hs.ok (readNatural_zero_literal h hr ho))

/-! ### Texts that look octal -/

variable {signs digits : List Char}

/-- Digits of any script with a zero in front, behind any number of signs. -/
structure OctalForm (cs signs digits : List Char) : Prop where
  eq : cs = signs ++ digits
  sign : ∀ c ∈ signs, c = '+' ∨ c = '-'
  zero : digits.head? = some '0'
  digit : ∀ c ∈ digits, isDigit c = true

/-- A text that looks octal and is not: it has more than one sign, or a digit that is not one of
the first eight. -/
def Misread (s : String) : Prop :=
  ∃ signs digits, OctalForm (trim s).toList signs digits ∧
    (1 < signs.length ∨ ∃ c ∈ digits, ∀ d, decimalValue? c = some d → 8 ≤ d)

theorem looksOctal_iff : looksOctal cs = true ↔ ∃ signs digits, OctalForm cs signs digits := by
  constructor
  · intro h
    simp only [looksOctal, Bool.and_eq_true, beq_iff_eq, List.all_eq_true] at h
    refine ⟨cs.takeWhile _, cs.dropWhile _, List.takeWhile_append_dropWhile.symm, ?_, h.1, h.2⟩
    intro c hc
    simpa using List.mem_takeWhile_imp hc
  · rintro ⟨signs, digits, rfl, hsign, hzero, hdigit⟩
    obtain ⟨rest, rfl⟩ := List.head?_eq_some_iff.mp hzero
    have hdrop : (signs ++ '0' :: rest).dropWhile (fun c => c == '+' || c == '-') =
        '0' :: rest := by
      rw [List.dropWhile_append_of_pos fun c hc => by simpa using hsign c hc]
      rfl
    simp only [looksOctal, hdrop, Bool.and_eq_true, beq_iff_eq, List.all_eq_true]
    exact ⟨rfl, hdigit⟩

/-- What is chosen for digits with a zero in front. -/
theorem chooseBase_digits {b : Nat} (hz : digits.head? = some '0')
    (hd : ∀ c ∈ digits, isDigit c = true) : chooseBase b (digits.map plainChar) =
      if b = 0 then (10, digits.map plainChar, true) else (b, digits.map plainChar, false) := by
  obtain ⟨rest, rfl⟩ := List.head?_eq_some_iff.mp hz
  rw [List.forall_mem_cons] at hd
  refine chooseBase_zero fun c hc => ?_
  obtain ⟨c', hc', rfl⟩ := List.mem_map.mp (List.mem_of_mem_head? hc)
  exact (plainChar_digit (hd.2 c' hc')).2.2

theorem isMargin_digits (hd : ∀ c ∈ digits, isDigit c = true) :
    ∀ c ∈ digits.map plainChar, isMargin c = false := by
  intro c hc
  obtain ⟨c', hc', rfl⟩ := List.mem_map.mp hc
  exact (plainChar_digit (hd c' hc')).1

/-- The digits of a row that is read have their values. -/
theorem decimalValue?_of_digitRun (hd : ∀ c ∈ digits, isDigit c = true)
    (h : DigitRun base (digits.map plainChar) ds) {c : Char} (hc : c ∈ digits) :
    ∃ d ∈ ds, decimalValue? c = some d ∧ d < base := by
  rcases h.mem (List.mem_map_of_mem hc) with hlow | ⟨d, hm, hread⟩
  · exact absurd hlow (plainChar_digit (hd c hc)).2.1
  · exact ⟨d, hm, (digitIn?_plainChar (hd c hc)).mp hread⟩

/-- In octal a row of digits is read if all of them are of the first eight. -/
theorem readNatural_eight_iff {text : String} (hz : digits.head? = some '0')
    (hd : ∀ c ∈ digits, isDigit c = true) :
    (∃ n, readNatural 8 text (digits.map plainChar) = .ok n) ↔
      ∀ c ∈ digits, ∃ d, decimalValue? c = some d ∧ d < 8 := by
  have hchoose : chooseBase 8 (digits.map plainChar) = (8, digits.map plainChar, false) := by
    rw [chooseBase_digits hz hd, if_neg (by decide)]
  have hiff := fun n => (readNatural_eq_ok_iff hchoose (isMargin_digits hd) :
    readNatural 8 text (digits.map plainChar) = .ok n ↔ _)
  constructor
  · rintro ⟨n, hn⟩ c hc
    obtain ⟨ds, hrun, -⟩ := (hiff n).mp hn
    obtain ⟨d, -, hvalue⟩ := decimalValue?_of_digitRun hd hrun hc
    exact ⟨d, hvalue⟩
  · intro hall
    have hspells : Spells 8 (digits.map plainChar)
        (digits.map fun c => (decimalValue? c).getD 0) := by
      rw [Spells, List.forall₂_map_left_iff, List.forall₂_map_right_iff, List.forall₂_same]
      intro c hc
      obtain ⟨d, hvalue, hlt⟩ := hall c hc
      rw [hvalue]
      exact (digitIn?_plainChar (hd c hc)).mpr ⟨hvalue, hlt⟩
    have hne : digits.map (fun c => (decimalValue? c).getD 0) ≠ [] := by
      rintro hnil
      rw [List.map_eq_nil_iff.mp hnil] at hz
      cases hz
    exact ⟨_, (hiff _).mpr ⟨_, .of_spells hspells hne, .inl rfl, nofun, rfl⟩⟩

/-- A row of digits with a zero in front that is read without a base is one of zeros. -/
theorem zeros_of_readNatural {text : String} {n : Nat} (hz : digits.head? = some '0')
    (hd : ∀ c ∈ digits, isDigit c = true)
    (h : readNatural 0 text (digits.map plainChar) = .ok n) :
    ∀ c ∈ digits, decimalValue? c = some 0 := by
  have hchoose : chooseBase 0 (digits.map plainChar) = (10, digits.map plainChar, true) := by
    rw [chooseBase_digits hz hd, if_pos rfl]
  obtain ⟨ds, hrun, -, hzeros, -⟩ := (readNatural_eq_ok_iff hchoose (isMargin_digits hd)).mp h
  intro c hc
  obtain ⟨d, hm, hvalue, -⟩ := decimalValue?_of_digitRun hd hrun hc
  rwa [hzeros rfl d hm] at hvalue

/-- Behind a sign there is no number with another sign. -/
theorem readNatural_sign {b n : Nat} {text : String} {c : Char} (hc : c = '+' ∨ c = '-')
    (hsign : ∀ c ∈ signs, c = '+' ∨ c = '-') (hd : ∀ c ∈ digits, isDigit c = true) :
    readNatural b text ((c :: signs ++ digits).map plainChar) ≠ .ok n := by
  have hplain : ∀ c : Char, c = '+' ∨ c = '-' → plainChar c = c ∧ isMargin c = false := by
    rintro c (rfl | rfl) <;> exact ⟨rfl, rfl⟩
  have hmargin : ∀ x ∈ (c :: signs ++ digits).map plainChar, isMargin x = false := by
    intro x hx
    rw [List.map_append] at hx
    rcases List.mem_append.mp hx with hx | hx
    · obtain ⟨x', hx', rfl⟩ := List.mem_map.mp hx
      have hsigns : ∀ x ∈ c :: signs, x = '+' ∨ x = '-' := List.forall_mem_cons.mpr ⟨hc, hsign⟩
      obtain ⟨hp, hm⟩ := hplain x' (hsigns x' hx')
      rwa [hp]
    · exact isMargin_digits hd x hx
  have hhead : ((c :: signs ++ digits).map plainChar).head? = some c := by
    rw [List.cons_append, List.map_cons, List.head?_cons, (hplain c hc).1]
  have hzero : ((c :: signs ++ digits).map plainChar).head? ≠ some '0' := by
    rw [hhead]
    rcases hc with rfl | rfl <;> decide
  intro hn
  obtain ⟨ds, hrun, -⟩ :=
    (readNatural_eq_ok_iff (chooseBase_of_head?_ne hzero) hmargin).mp hn
  obtain ⟨x, rest, d, hx, hdigit⟩ := hrun.head
  rw [hx, List.head?_cons, Option.some.injEq] at hhead
  have hx := isPlain_of_digitIn? hdigit
  rw [hhead] at hx
  exact hc.elim hx.plus hx.minus

/-- A text of digits behind signs is read if it has one sign at most and the digits are read. -/
theorem readInteger_octalForm {b : Nat} (h : OctalForm cs signs digits) :
    (∃ n, readInteger b (String.ofList cs) = .ok n) ↔ signs.length ≤ 1 ∧
      ∃ n, readNatural b (String.ofList cs) (digits.map plainChar) = .ok n := by
  obtain ⟨rfl, hsign, hzero, hdigit⟩ := h
  cases signs with
  | nil =>
      obtain ⟨rest, rfl⟩ := List.head?_eq_some_iff.mp hzero
      rw [List.nil_append, readInteger_unsigned List.map_cons (isPlain_of_toNat (by decide)),
        exists_map_eq_ok]
      exact ⟨fun h => ⟨Nat.zero_le _, h⟩, And.right⟩
  | cons c signs =>
      rw [List.forall_mem_cons] at hsign
      have hread : (∃ n, readInteger b (String.ofList (c :: signs ++ digits)) = .ok n) ↔
          ∃ n, readNatural b (String.ofList (c :: signs ++ digits))
            ((signs ++ digits).map plainChar) = .ok n := by
        rcases hsign.1 with rfl | rfl
        · rw [List.cons_append, readInteger_plus, exists_map_eq_ok]
        · rw [List.cons_append, readInteger_minus, exists_map_eq_ok]
      rw [hread]
      cases signs with
      | nil => exact ⟨fun h => ⟨Nat.le_refl _, h⟩, And.right⟩
      | cons c' signs =>
          rw [List.forall_mem_cons] at hsign
          constructor
          · rintro ⟨n, hn⟩
            exact absurd hn (readNatural_sign hsign.2.1 hsign.2.2 hdigit)
          · rintro ⟨hlen, -⟩
            simp only [List.length_cons] at hlen
            omega

/-- **The texts that are no integers and are not refused** are those that look octal and are not. -/
theorem unreadable_text_iff : Unreadable (.exact (.text s)) ↔ Misread s := by
  have hread : ∀ {b signs digits}, OctalForm (trim s).toList signs digits →
      ((∃ n, readInteger b (trim s) = .ok n) ↔ signs.length ≤ 1 ∧
        ∃ n, readNatural b (trim s) (digits.map plainChar) = .ok n) := by
    intro b signs digits h
    have hiff := readInteger_octalForm (b := b) h
    rwa [String.ofList_toList] at hiff
  constructor
  · rintro ⟨hlook, -, height⟩
    obtain ⟨signs, digits, h⟩ := looksOctal_iff.mp hlook
    refine ⟨signs, digits, h, ?_⟩
    by_contra hno
    rw [not_or, not_lt] at hno
    have hall : ∀ c ∈ digits, ∃ d, decimalValue? c = some d ∧ d < 8 := by
      simpa using hno.2
    obtain ⟨n, hn⟩ := (hread h).mpr ⟨hno.1, (readNatural_eight_iff h.zero h.digit).mpr hall⟩
    exact height n hn
  · rintro ⟨signs, digits, h, hbad⟩
    have hno : ∀ b n, b = 0 ∨ b = 8 → readInteger b (trim s) ≠ .ok n := by
      intro b n hb hn
      obtain ⟨hlen, m, hm⟩ := (hread h).mp ⟨n, hn⟩
      have hall : ∀ c ∈ digits, ∃ d, decimalValue? c = some d ∧ d < 8 := by
        rcases hb with rfl | rfl
        · exact fun c hc => ⟨0, zeros_of_readNatural h.zero h.digit hm c hc, by decide⟩
        · exact (readNatural_eight_iff h.zero h.digit).mp ⟨m, hm⟩
      rcases hbad with hsigns | ⟨c, hc, hlarge⟩
      · omega
      · obtain ⟨d, hd, hlt⟩ := hall c hc
        exact absurd (hlarge d hd) (by omega)
    exact ⟨looksOctal_iff.mpr ⟨_, _, h⟩, fun n => hno 0 n (.inl rfl), fun n => hno 8 n (.inr rfl)⟩

/-- **The integer of a text.**  If it is an integer literal, it has the value that it has in source,
with a minus before it or not, if and only if it is not overlooked; and whatever it is, it is an
integer or is refused if and only if it is not misread. -/
theorem integer_text_iff (name t : String) :
    (∀ base ds, IntegerForm t.toList base ds → (base = 10 → ds.length ≤ digitLimit) →
      ∃ n, integerLiteral t = .ok n ∧
        (integer (.exact (.text t)) (.str name) = .ok n ↔ ¬ Overlooked t.toList) ∧
        (integer (.exact (.text ("-" ++ t))) (.str name) = .ok (-n) ↔ ¬ Overlooked t.toList)) ∧
    ((∃ n, integer (.exact (.text t)) (.str name) = .ok n) ∨
        (∃ fault, integer (.exact (.text t)) (.str name) = .error (.value fault)) ↔
      ¬ Misread t) := by
  constructor
  · intro base ds h hlength
    have hr := readable_of_length h hlength
    exact ⟨positional base ds, integerLiteral_eq_ok h hr,
      integer_literal_iff (readAs_literal h) h hr, integer_literal_iff (readAs_minus h) h hr⟩
  · rw [← unreadable_text_iff]
    rcases integer_text_cases name t with ⟨hr, h⟩ | ⟨hu, fault, h⟩
    · exact ⟨fun _ => hr, fun _ => h⟩
    · refine ⟨?_, fun hr => absurd hu hr⟩
      rintro (⟨n, hn⟩ | ⟨fault', hf⟩)
      · rw [h] at hn
        cases hn
      · rw [h] at hf
        cases hf

theorem integerForm_mask : IntegerForm "0x_1F".toList 16 [1, 15] :=
  .marked rfl (.gap (.next rfl (.last rfl)))

theorem not_overlooked_mask : ¬ Overlooked "0x_1F".toList := by
  rintro ⟨rest, ds, heq, hrun, -⟩
  cases heq
  exact nomatch base_of_octal integerForm_mask hrun

/-- A literal in sixteens with a low line has its value, with a minus before it too, and a text that
is no literal is refused. -/
theorem integer_text_mask : IntegerForm "0x_1F".toList 16 [1, 15] ∧
    integer (.exact (.text "0x_1F")) (.str "Mask") = .ok 31 ∧
    integer (.exact (.text "-0x_1F")) (.str "Mask") = .ok (-31) ∧ ¬ Misread "7_" ∧
    ((∃ n, integer (.exact (.text "7_")) (.str "Mask") = .ok n) ∨
      ∃ fault, integer (.exact (.text "7_")) (.str "Mask") = .error (.value fault)) := by
  have hvalue : integerLiteral "0x_1F" = .ok 31 := by decide +kernel
  have htext : "-" ++ "0x_1F" = "-0x_1F" := by decide
  obtain ⟨n, hn, hplain, hminus⟩ :=
    (integer_text_iff "Mask" "0x_1F").1 16 [1, 15] integerForm_mask (by decide)
  rw [hvalue] at hn
  cases hn
  rw [htext] at hminus
  have hread : ¬ Misread "7_" := fun ⟨signs, digits, h, _⟩ =>
    absurd (looksOctal_iff.mpr ⟨signs, digits, h⟩) (by decide +kernel)
  exact ⟨integerForm_mask, hplain.mpr not_overlooked_mask, hminus.mpr not_overlooked_mask, hread,
    (integer_text_iff "Mask" "7_").2.mpr hread⟩

/-- The octal literal `0_7` is seven in source, and no integer in a document; and `089` is neither
an integer nor refused. -/
theorem octal_with_low_line_refused : IntegerForm "0_7".toList 8 [7] ∧
    integerLiteral "0_7" = .ok 7 ∧
    integer (.exact (.text "0_7")) (.str "") = .error (.value (.notExact "" (quoted "0_7"))) ∧
    integer (.exact (.text "089")) (.str "") = .error (.number (.notInteger 8 "089")) := by
  refine ⟨.octal (.gap (.last rfl)), by decide +kernel, by decide +kernel, by decide +kernel⟩

end EnumHelpers.Recorded
