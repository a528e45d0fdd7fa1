import EnumHelpers.Proofs.Constant.Literal

/-!
# Proofs — natural numbers with low lines

Digits may be read with the low lines that stand between them.  A natural number is read exactly of
the rows of digits with single low lines, once the base is chosen and the margin is gone.

* `takeDigits_eq_some_iff`: which characters are taken as digits.
* `readNatural_eq_ok_iff`: of which characters a natural number is read, and which one.
-/

namespace EnumHelpers.Constant
open Number

variable {base b : Nat} {cs body : List Char} {ds : List Nat} {onlyZeros : Bool}

/-! ### Digits -/

/-- A character of a row of digits is a low line or one of the digits. -/
theorem DigitRun.mem (h : DigitRun base cs ds) {c : Char} (hc : c ∈ cs) :
    c = '_' ∨ ∃ d ∈ ds, digitIn? base c = some d := by
  induction h with
  | last hd =>
      rw [List.mem_singleton] at hc
      subst hc
      exact .inr ⟨_, List.mem_singleton_self _, hd⟩
  | next hd _ ih =>
      rcases List.mem_cons.mp hc with rfl | hc
      · exact .inr ⟨_, List.mem_cons_self, hd⟩
      · exact (ih hc).imp_right fun ⟨d, hm, hd⟩ => ⟨d, List.mem_cons_of_mem _ hm, hd⟩
  | gap hd _ ih =>
      rcases List.mem_cons.mp hc with rfl | hc
      · exact .inr ⟨_, List.mem_cons_self, hd⟩
      rcases List.mem_cons.mp hc with rfl | hc
      · exact .inl rfl
      · exact (ih hc).imp_right fun ⟨d, hm, hd⟩ => ⟨d, List.mem_cons_of_mem _ hm, hd⟩

theorem DigitRun.head (h : DigitRun base cs ds) :
    ∃ c rest d, cs = c :: rest ∧ digitIn? base c = some d := by
  cases h with
  | last hd | next hd _ | gap hd _ => exact ⟨_, _, _, rfl, hd⟩

/-- The digits of a base are digits of a greater one. -/
theorem digitIn?_mono {base' d : Nat} {c : Char} (hb : base ≤ base')
    (h : digitIn? base c = some d) : digitIn? base' c = some d := by
  unfold digitIn? at h ⊢
  split at h
  · split at h
    · rename_i hlt
      rwa [if_pos (hlt.trans_le hb)]
    · cases h
  · cases h

theorem DigitRun.mono {base' : Nat} (hb : base ≤ base') (h : DigitRun base cs ds) :
    DigitRun base' cs ds := by
  induction h with
  | last hd => exact .last (digitIn?_mono hb hd)
  | next hd _ ih => exact .next (digitIn?_mono hb hd) ih
  | gap hd _ ih => exact .gap (digitIn?_mono hb hd) ih

theorem digitIn?_unique {base' d d' : Nat} {c : Char} (h : digitIn? base c = some d)
    (h' : digitIn? base' c = some d') : d = d' := by
  have hmax := digitIn?_mono (Nat.le_max_left base base') h
  rw [digitIn?_mono (Nat.le_max_right base base') h'] at hmax
  exact (Option.some.inj hmax).symm

/-- The digits of a row are the same in every base that has them. -/
theorem DigitRun.unique {base' : Nat} {ds' : List Nat} (h : DigitRun base cs ds)
    (h' : DigitRun base' cs ds') : ds = ds' := by
  have hrows := h.spells
  have hrows' := h'.spells
  generalize bare cs = row at hrows hrows'
  clear h h'
  induction hrows generalizing ds' with
  | nil =>
      cases hrows'
      rfl
  | cons hd _ ih =>
      cases hrows' with
      | cons hd' hrows' => rw [digitIn?_unique hd hd', ih hrows']

theorem takeDigits_digitRun (gap : Bool) (h : DigitRun base cs ds) :
    takeDigits base gap cs = some (ds, []) := by
  induction h generalizing gap with
  | last hd =>
      rw [takeDigits, if_neg (isPlain_of_digitIn? hd).lowLine]
      simp only [hd, takeDigits, Bool.false_eq_true, if_false, Option.map_some]
  | next hd _ ih =>
      rw [takeDigits, if_neg (isPlain_of_digitIn? hd).lowLine]
      simp only [hd, ih, Option.map_some]
  | gap hd _ ih =>
      rw [takeDigits, if_neg (isPlain_of_digitIn? hd).lowLine]
      simp only [hd, takeDigits, if_true, Bool.false_eq_true, if_false, ih, Option.map_some]

/-- Characters without blanks that are all taken are no character, or a row of digits, which a low
line may stand before unless there is one already. -/
theorem digitRun_of_takeDigits {gap : Bool} {after : List Char}
    (h : takeDigits base gap cs = some (ds, after)) (hm : ∀ c ∈ cs, isMargin c = false)
    (hafter : after.all isMargin = true) :
    (cs = [] ∧ ds = [] ∧ gap = false) ∨ DigitRun base cs ds ∨
      (gap = false ∧ ∃ rest, cs = '_' :: rest ∧ DigitRun base rest ds) := by
  induction cs generalizing gap ds with
  | nil =>
      cases gap with
      | true => cases h
      | false =>
          cases h
          exact .inl ⟨rfl, rfl, rfl⟩
  | cons c rest ih =>
      rw [List.forall_mem_cons] at hm
      rw [takeDigits] at h
      split at h
      · rename_i hlow
        cases gap with
        | true => cases h
        | false =>
            rcases ih h hm.2 with ⟨-, -, ⟨⟩⟩ | hrun | ⟨⟨⟩, -⟩
            exact .inr (.inr ⟨rfl, rest, by rw [hlow], hrun⟩)
      · split at h
        · rename_i d hd
          obtain ⟨⟨more, after'⟩, htake, heq⟩ := Option.map_eq_some_iff.mp h
          cases heq
          refine .inr (.inl ?_)
          rcases ih htake hm.2 with ⟨rfl, rfl, -⟩ | hrun | ⟨-, rest', rfl, hrun⟩
          · exact .last hd
          · exact .next hd hrun
          · exact .gap hd hrun
        · cases gap with
          | true => cases h
          | false =>
              cases h
              rw [List.all_cons, hm.1] at hafter
              cases hafter

/-! ### Numbers -/

/-- **A natural number is read of a row of digits**, if there are not too many of them; in decimal
and behind a zero, of zeros only. -/
theorem readNatural_eq_ok_iff {text : String} {n : Nat}
    (hc : chooseBase b cs = (base, body, onlyZeros)) (hm : ∀ c ∈ body, isMargin c = false) :
    readNatural b text cs = .ok n ↔ ∃ ds, DigitRun base body ds ∧ Readable base ds ∧
      (onlyZeros = true → ∀ d ∈ ds, d = 0) ∧ n = positional base ds := by
  rw [readNatural, hc]
  dsimp only
  constructor
  · intro h
    split at h
    · cases h
    rename_i hhead
    split at h
    · cases h
    rename_i ds after htake
    split_ifs at h with hlong hbad
    cases h
    simp only [Bool.or_eq_true, Bool.and_eq_true, Bool.not_eq_true', not_or, not_and,
      Bool.not_eq_false, List.isEmpty_iff, List.any_eq_true, not_exists, bne_iff_ne,
      Decidable.not_not] at hbad
    obtain ⟨⟨hne, hafter⟩, hzeros⟩ := hbad
    simp only [Bool.and_eq_true, Bool.not_eq_true', decide_eq_true_eq, not_and, not_lt] at hlong
    refine ⟨ds, ?_, ?_, hzeros, ofDigits_zero ds⟩
    · rcases digitRun_of_takeDigits htake hm hafter with ⟨-, hds, -⟩ | hrun | ⟨-, rest, hlow, -⟩
      · exact absurd hds hne
      · exact hrun
      · exact absurd (by rw [hlow]; rfl) hhead
    · cases hb : isBinaryBase base with
      | true => exact .inl hb
      | false => exact .inr (hlong hb)
  · rintro ⟨ds, hrun, hr, hzeros, rfl⟩
    have hhead : body.head? ≠ some '_' := by
      obtain ⟨c, rest, d, rfl, hd⟩ := hrun.head
      simpa using (isPlain_of_digitIn? hd).lowLine
    have hlong : ¬ ((!isBinaryBase base && decide (digitLimit < ds.length)) = true) := by
      rcases hr with hr | hr
      · simp [hr]
      · simp [hr]
    have hbad : ¬ ((ds.isEmpty || !([] : List Char).all isMargin ||
        (onlyZeros && ds.any (· != 0))) = true) := by
      simpa [hrun.ne_nil] using hzeros
    rw [if_neg hhead]
    simp only [takeDigits_digitRun false hrun]
    rw [if_neg hlong, if_neg hbad, ofDigits_zero]

/-- The base that is chosen for digits that do not begin with a zero. -/
theorem chooseBase_of_head?_ne (h : cs.head? ≠ some '0') :
    chooseBase b cs = (if b = 0 then 10 else b, cs, false) := by
  unfold chooseBase
  split
  · exact absurd rfl h
  · exact absurd rfl h
  · rfl

/-- The base that is chosen for digits behind a zero, with no letter of a base. -/
theorem chooseBase_zero {rest : List Char} (h : ∀ c ∈ rest.head?, prefixBase? c = none) :
    chooseBase b ('0' :: rest) =
      if b = 0 then (10, '0' :: rest, true) else (b, '0' :: rest, false) := by
  cases rest with
  | nil => rfl
  | cons x rest => simp only [chooseBase, h x rfl]

end EnumHelpers.Constant
