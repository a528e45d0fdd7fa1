import EnumHelpers.Proofs.Constant.Faults

/-!
# Proofs — the value of an integer literal

An integer literal has its positional value in the base that its prefix names, the last digit
counting ones.  Low lines between the digits and the case of the letters, in the prefix and among
the digits, make no difference: what is read of a literal is read of every text with the same
letters.

* `integerLiteral_positional`: the value of an integer literal, and of all that is written like it.
-/

namespace EnumHelpers.Constant
open Number Text

variable {base : Nat} {cs cs' : List Char} {ds : List Nat}

/-! ### Letters in either case -/

/-- Characters that are the same but for the case of letters, one by one. -/
def Alike : List Char → List Char → Prop :=
  List.Forall₂ fun c c' => c.toLower = c'.toLower

/-- Two texts have the same characters but for the case of letters, when their low lines are taken
out. -/
def SameLetters (s t : String) : Prop :=
  (withoutLowLines s).map Char.toLower = (withoutLowLines t).map Char.toLower

theorem SameLetters.alike {s t : String} (h : SameLetters s t) :
    Alike (bare s.toList) (bare t.toList) := by
  rwa [SameLetters, ← List.forall₂_eq_eq_eq, List.forall₂_map_left_iff,
    List.forall₂_map_right_iff] at h

theorem toNat_toLower (c : Char) : c.toLower.toNat =
    if 0x41 ≤ c.toNat ∧ c.toNat ≤ 0x5A then c.toNat + 0x20 else c.toNat := by
  have hiff : (c.val ≥ 'A'.val ∧ c.val ≤ 'Z'.val) ↔ 0x41 ≤ c.toNat ∧ c.toNat ≤ 0x5A := Iff.rfl
  delta Char.toLower
  split
  · rename_i h
    rw [hiff] at h
    rw [if_pos h]
    change (c.val + 0x20).toNat = c.val.toNat + 0x20
    have hlt : c.val.toNat ≤ 0x5A := h.2
    rw [UInt32.toNat_add]
    exact Nat.mod_eq_of_lt (by change _ + 0x20 < _; omega)
  · rename_i h
    rw [if_neg (hiff.not.mp h)]

/-- The case of a letter makes no difference to the digit that it is. -/
theorem digitIn?_toLower (c : Char) : digitIn? base c.toLower = digitIn? base c := by
  have hvalue : digitValue? c.toLower = digitValue? c := by
    simp only [digitValue?, toNat_toLower]
    grind
  rw [digitIn?, digitIn?, hvalue]

/-- The case of a letter makes no difference to the base that it marks. -/
theorem prefixBase?_toLower (c : Char) : prefixBase? c.toLower = prefixBase? c := by
  simp only [prefixBase?, ← Char.toNat_inj, toNat_toLower, Char.reduceToNat]
  grind

/-- A character that is no letter has none like it. -/
theorem eq_of_toLower_eq {c k : Char} (h : k.toLower = c.toLower) (hk : k = '0' ∨ k = '_') :
    c = k := by
  rw [← Char.toNat_inj, toNat_toLower, toNat_toLower] at h
  rw [← Char.toNat_inj]
  rcases hk with rfl | rfl
  · simp only [Char.reduceToNat] at h ⊢
    grind
  · simp only [Char.reduceToNat] at h ⊢
    grind

theorem digitIn?_of_toLower_eq {c c' : Char} {d : Nat} (h : c.toLower = c'.toLower)
    (hc : digitIn? base c = some d) : digitIn? base c' = some d := by
  rwa [← digitIn?_toLower, ← h, digitIn?_toLower]

/-! ### Literals written alike -/

theorem DigitRun.alike (h : DigitRun base cs ds) (ha : Alike cs cs') : DigitRun base cs' ds := by
  induction h generalizing cs' with
  | last hc =>
      cases ha with
      | cons hcc ha =>
          cases ha
          exact .last (digitIn?_of_toLower_eq hcc hc)
  | next hc _ ih =>
      cases ha with
      | cons hcc ha => exact .next (digitIn?_of_toLower_eq hcc hc) (ih ha)
  | gap hc _ ih =>
      cases ha with
      | cons hcc ha =>
          cases ha with
          | cons hlow ha =>
              rw [eq_of_toLower_eq hlow (.inr rfl)]
              exact .gap (digitIn?_of_toLower_eq hcc hc) (ih ha)

theorem PrefixedRun.alike (h : PrefixedRun base cs ds) (ha : Alike cs cs') :
    PrefixedRun base cs' ds := by
  cases h with
  | direct h => exact .direct (h.alike ha)
  | gap h =>
      cases ha with
      | cons hlow ha =>
          rw [eq_of_toLower_eq hlow (.inr rfl)]
          exact .gap (h.alike ha)

/-- What is written like an integer literal is one, with the same base and digits. -/
theorem IntegerForm.alike (h : IntegerForm cs base ds) (ha : Alike cs cs') :
    IntegerForm cs' base ds := by
  cases h with
  | zero =>
      cases ha with
      | cons hzero ha =>
          cases ha
          rw [eq_of_toLower_eq hzero (.inl rfl)]
          exact .zero
  | decimal h hd => exact .decimal (h.alike ha) hd
  | octal h =>
      cases ha with
      | cons hzero ha =>
          rw [eq_of_toLower_eq hzero (.inl rfl)]
          exact .octal (h.alike ha)
  | marked hm h =>
      cases ha with
      | cons hzero ha =>
          cases ha with
          | cons hmark ha =>
              rw [eq_of_toLower_eq hzero (.inl rfl)]
              rw [← prefixBase?_toLower, hmark, prefixBase?_toLower] at hm
              exact .marked hm (h.alike ha)

theorem PrefixedRun.bare (h : PrefixedRun base cs ds) : PrefixedRun base (bare cs) ds :=
  .direct (.of_spells h.spells h.ne_nil)

/-- An integer literal without its low lines is one, with the same base and digits. -/
theorem IntegerForm.bare (h : IntegerForm cs base ds) : IntegerForm (bare cs) base ds := by
  cases h with
  | zero => exact .zero
  | decimal h hd => exact .decimal (.of_spells h.spells h.ne_nil) hd
  | octal h =>
      rw [bare_cons (by decide)]
      exact .octal h.bare
  | @marked mark _ _ _ hm h =>
      have hmark : mark ≠ '_' := by
        rintro rfl
        simp [prefixBase?] at hm
      rw [bare_cons (by decide), bare_cons hmark]
      exact .marked hm h.bare

/-- An integer literal is read without its low lines. -/
theorem integerLiteral_bare (text : String) :
    integerLiteral (String.ofList (bare text.toList)) = integerLiteral text := by
  have hbare : withoutLowLines (String.ofList (bare text.toList)) = withoutLowLines text := by
    simp only [withoutLowLines, bare, String.toList_ofList, List.filter_filter, Bool.and_self]
  simp only [integerLiteral, hbare]

/-- **An integer literal has its positional value**, and so has every text with the same letters,
wherever low lines stand in it and whatever the case of its letters is. -/
theorem integerLiteral_positional {text : String} (h : IntegerForm text.toList base ds)
    (hlength : base = 10 → ds.length ≤ digitLimit) :
    integerLiteral text = .ok (positional base ds) ∧
      ∀ other, SameLetters text other → integerLiteral other = .ok (positional base ds) := by
  have hr := readable_of_length h hlength
  refine ⟨integerLiteral_eq_ok h hr, fun other hsame => ?_⟩
  -- the other text without its low lines is a literal with the same digits
  have hother : IntegerForm (String.ofList (bare other.toList)).toList base ds := by
    rw [String.toList_ofList]
    exact h.bare.alike hsame.alike
  rw [← integerLiteral_bare, integerLiteral_eq_ok hother hr]

theorem integerForm_mixed : IntegerForm "0X_fF_0".toList 16 [15, 15, 0] :=
  .marked rfl (.gap (.next rfl (.gap rfl (.last rfl))))

/-- A literal in sixteens with letters of both cases, and the same without low lines. -/
theorem integerLiteral_positional_mixed : IntegerForm "0X_fF_0".toList 16 [15, 15, 0] ∧
    integerLiteral "0X_fF_0" = .ok 4080 ∧ SameLetters "0X_fF_0" "0xFf0" ∧
    integerLiteral "0xFf0" = .ok 4080 := by
  have hsame : SameLetters "0X_fF_0" "0xFf0" := by unfold SameLetters; decide
  obtain ⟨hread, hother⟩ := integerLiteral_positional integerForm_mixed (by decide)
  exact ⟨integerForm_mixed, hread, hsame, hother _ hsame⟩

end EnumHelpers.Constant
