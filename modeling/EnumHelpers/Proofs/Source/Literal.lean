import EnumHelpers.Proofs.Constant.HexFloat
import EnumHelpers.Source.Literal

/-!
# Proofs — the extent of literals

What a scan takes from the front of a text has the form of a literal: a scan for integers takes an
integer literal, and so on.  Each scan is followed as it is put together, from single characters
and rows of digits over rows of scans to the longest of several.

* `takes_intScan`, `takes_floatScan`, `takes_runeScan`: the form of what is taken.
-/

namespace EnumHelpers.Source
open Text Constant Number

/-! ### Scans put together -/

namespace Scan

/-- What a scan takes from the front of characters has a form. -/
def Takes (s : Scan) (F : List Char → Prop) : Prop :=
  ∀ cs n, s (cs.map .char) = some n → ∃ u v, cs = u ++ v ∧ u.length = n ∧ F u

variable {a b s : Scan} {F G : List Char → Prop} {test : Char → Bool}

theorem Takes.imp (h : s.Takes F) (hFG : ∀ u, F u → G u) : s.Takes G := by
  intro cs n hs
  obtain ⟨u, v, hcs, hn, hu⟩ := h cs n hs
  exact ⟨u, v, hcs, hn, hFG u hu⟩

theorem takes_one : (one test).Takes fun u => ∃ c, u = [c] ∧ test c = true := by
  intro cs n h
  cases cs with
  | nil => cases h
  | cons c rest =>
      rw [List.map_cons, one] at h
      split at h
      · rename_i hc
        cases h
        exact ⟨[c], rest, rfl, rfl, c, rfl, hc⟩
      · cases h

theorem takes_exactly (c : Char) : (exactly c).Takes (· = [c]) := by
  refine takes_one.imp ?_
  rintro _ ⟨c', rfl, hc⟩
  rw [beq_iff_eq.mp hc]

theorem Takes.andThen (ha : a.Takes F) (hb : b.Takes G) :
    (a.andThen b).Takes fun u => ∃ x y, u = x ++ y ∧ F x ∧ G y := by
  intro cs n h
  rw [Scan.andThen] at h
  split at h
  · rename_i m hm
    obtain ⟨x, v, rfl, rfl, hx⟩ := ha cs m hm
    rw [List.map_append, List.drop_left' (List.length_map _)] at h
    obtain ⟨k, hk, rfl⟩ := Option.map_eq_some_iff.mp h
    obtain ⟨y, v, rfl, rfl, hy⟩ := hb v k hk
    exact ⟨x ++ y, v, (List.append_assoc x y v).symm, List.length_append, x, y, rfl, hx, hy⟩
  · cases h

/-- The form of what scans take one after another. -/
def RowForm : List (List Char → Prop) → List Char → Prop
  | [], u => u = []
  | F :: rest, u => ∃ x y, u = x ++ y ∧ F x ∧ RowForm rest y

theorem takes_row {scans : List Scan} {forms : List (List Char → Prop)}
    (h : List.Forall₂ Takes scans forms) : (row scans).Takes (RowForm forms) := by
  induction h with
  | nil =>
      intro cs n hs
      cases hs
      exact ⟨[], cs, rfl, rfl, rfl⟩
  | cons hs _ ih => exact hs.andThen ih

theorem Takes.optional (h : s.Takes F) : (optional s).Takes fun u => u = [] ∨ F u := by
  intro cs n hs
  rw [Scan.optional] at hs
  cases ha : s (cs.map .char) with
  | none =>
      rw [ha] at hs
      cases hs
      exact ⟨[], cs, rfl, rfl, .inl rfl⟩
  | some m =>
      rw [ha] at hs
      cases hs
      obtain ⟨u, v, hcs, hn, hu⟩ := h cs _ ha
      exact ⟨u, v, hcs, hn, .inr hu⟩

theorem longer_eq_some {best extent : Option Nat} {n : Nat} (h : longer best extent = some n) :
    best = some n ∨ extent = some n := by
  cases best with
  | none => exact .inr h
  | some m =>
      cases extent with
      | none => exact .inl h
      | some k =>
          rcases Nat.le_total m k with hle | hle
          · rw [longer, Nat.max_eq_right hle] at h
            exact .inr h
          · rw [longer, Nat.max_eq_left hle] at h
            exact .inl h

/-- The longest of several extents is one of them. -/
theorem exists_of_longest {scans : List Scan} {gs : List Glyph} {n : Nat}
    (h : longest scans gs = some n) : ∃ s ∈ scans, s gs = some n := by
  suffices hfold : ∀ best : Option Nat,
      scans.foldl (fun best s => longer best (s gs)) best = some n →
        best = some n ∨ ∃ s ∈ scans, s gs = some n from (hfold none h).resolve_left nofun
  clear h
  induction scans with
  | nil => exact fun best h => .inl h
  | cons s rest ih =>
      intro best h
      rcases ih _ h with h | ⟨s', hs', hn⟩
      · exact (longer_eq_some h).imp_right fun hs => ⟨s, List.mem_cons_self, hs⟩
      · exact .inr ⟨s', List.mem_cons_of_mem s hs', hn⟩

theorem takes_longest {scans : List Scan} (h : ∀ s ∈ scans, s.Takes F) :
    (longest scans).Takes F := by
  intro cs n hs
  obtain ⟨s, hmem, hn⟩ := exists_of_longest hs
  exact h s hmem cs n hn

/-- The characters after a digit that go on its run. -/
theorem run_digitsMore {base : Nat} (htest : ∀ c, test c = true → ∃ d, digitIn? base c = some d)
    (cs : List Char) {c : Char} {d : Nat} (hc : digitIn? base c = some d) :
    ∃ u v ds, cs = u ++ v ∧ u.length = digitsMore test (cs.map .char) ∧
      DigitRun base (c :: u) (d :: ds) := by
  match cs with
  | [] => exact ⟨[], [], [], rfl, rfl, .last hc⟩
  | c' :: rest =>
      rw [List.map_cons, digitsMore.eq_def]
      dsimp only
      by_cases ht : test c' = true
      · obtain ⟨d', hd'⟩ := htest c' ht
        obtain ⟨u, v, ds, rfl, hn, hrun⟩ := run_digitsMore htest rest hd'
        rw [if_pos ht]
        exact ⟨c' :: u, v, d' :: ds, rfl, by rw [List.length_cons, hn, Nat.add_comm], .next hc hrun⟩
      · rw [if_neg ht]
        by_cases hlow : c' = '_'
        · rw [if_pos hlow]
          match rest with
          | [] => exact ⟨[], [c'], [], rfl, rfl, .last hc⟩
          | c'' :: rest =>
              rw [List.map_cons]
              dsimp only
              by_cases ht : test c'' = true
              · obtain ⟨d'', hd''⟩ := htest c'' ht
                obtain ⟨u, v, ds, rfl, hn, hrun⟩ := run_digitsMore htest rest hd''
                rw [if_pos ht]
                subst hlow
                exact ⟨'_' :: c'' :: u, v, d'' :: ds, rfl,
                  by rw [List.length_cons, List.length_cons, hn]; omega, .gap hc hrun⟩
              · rw [if_neg ht]
                exact ⟨[], c' :: c'' :: rest, [], rfl, rfl, .last hc⟩
        · rw [if_neg hlow]
          exact ⟨[], c' :: rest, [], rfl, rfl, .last hc⟩

theorem takes_digits {base : Nat} (htest : ∀ c, test c = true → ∃ d, digitIn? base c = some d) :
    (digits test).Takes fun u => ∃ ds, DigitRun base u ds := by
  intro cs n h
  cases cs with
  | nil => cases h
  | cons c rest =>
      rw [List.map_cons, digits] at h
      split at h
      · rename_i hc
        cases h
        obtain ⟨d, hd⟩ := htest c hc
        obtain ⟨u, v, ds, rfl, hn, hrun⟩ := run_digitsMore htest rest hd
        exact ⟨c :: u, v, rfl, by rw [List.length_cons, hn, Nat.add_comm], d :: ds, hrun⟩
      · cases h

theorem takes_times (n : Nat) :
    (times test n).Takes fun u => u.length = n ∧ ∀ c ∈ u, test c = true := by
  induction n with
  | zero =>
      intro cs n h
      cases h
      exact ⟨[], cs, rfl, rfl, rfl, nofun⟩
  | succ n ih =>
      refine (takes_one.andThen ih).imp ?_
      rintro _ ⟨_, y, rfl, ⟨c, rfl, hc⟩, hlength, hy⟩
      exact ⟨by rw [List.length_append, hlength]; exact Nat.add_comm 1 n,
        List.forall_mem_cons.mpr ⟨hc, hy⟩⟩

end Scan

open Scan

/-! ### Digits -/

theorem toNat_le {a b : Char} (h : decide (a ≤ b) = true) : a.toNat ≤ b.toNat :=
  of_decide_eq_true h

/-- A character with a value below the base is a digit of it. -/
theorem digitIn?_of_value {base : Nat} {c : Char} {d : Nat} (h : digitValue? c = some d)
    (hd : d < base) : digitIn? base c = some d := by
  rw [digitIn?, h]
  exact if_pos hd

theorem digitValue?_decimal {c : Char} (h : 0x30 ≤ c.toNat ∧ c.toNat ≤ 0x39) :
    digitValue? c = some (c.toNat - 0x30) := if_pos h

theorem digit_of_isDecimalDigit (c : Char) (h : isDecimalDigit c = true) :
    ∃ d, digitIn? 10 c = some d := by
  rw [isDecimalDigit, Bool.and_eq_true] at h
  have hr : 0x30 ≤ c.toNat ∧ c.toNat ≤ 0x39 := ⟨toNat_le h.1, toNat_le h.2⟩
  exact ⟨_, digitIn?_of_value (digitValue?_decimal hr) (by omega)⟩

theorem digit_of_isOctalDigit (c : Char) (h : isOctalDigit c = true) :
    ∃ d, digitIn? 8 c = some d := by
  rw [isOctalDigit, Bool.and_eq_true] at h
  have hr : 0x30 ≤ c.toNat ∧ c.toNat ≤ 0x37 := ⟨toNat_le h.1, toNat_le h.2⟩
  exact ⟨_, digitIn?_of_value (digitValue?_decimal (by omega)) (by omega)⟩

theorem digit_of_isBinaryDigit (c : Char) (h : isBinaryDigit c = true) :
    ∃ d, digitIn? 2 c = some d := by
  rw [isBinaryDigit, Bool.or_eq_true, beq_iff_eq, beq_iff_eq] at h
  rcases h with rfl | rfl
  · exact ⟨0, rfl⟩
  · exact ⟨1, rfl⟩

theorem digit_of_isHexadecimalDigit (c : Char) (h : isHexadecimalDigit c = true) :
    ∃ d, digitIn? 16 c = some d := by
  simp only [isHexadecimalDigit, isDecimalDigit, Bool.or_eq_true, Bool.and_eq_true] at h
  rcases h with (h | h) | h
  · have hr : 0x30 ≤ c.toNat ∧ c.toNat ≤ 0x39 := ⟨toNat_le h.1, toNat_le h.2⟩
    exact ⟨_, digitIn?_of_value (digitValue?_decimal hr) (by omega)⟩
  · have hr : 0x61 ≤ c.toNat ∧ c.toNat ≤ 0x66 := ⟨toNat_le h.1, toNat_le h.2⟩
    have hvalue : digitValue? c = some (c.toNat - 0x61 + 10) := by
      rw [digitValue?, if_neg (by omega), if_neg (by omega), if_pos (by omega)]
    exact ⟨_, digitIn?_of_value hvalue (by omega)⟩
  · have hr : 0x41 ≤ c.toNat ∧ c.toNat ≤ 0x46 := ⟨toNat_le h.1, toNat_le h.2⟩
    have hvalue : digitValue? c = some (c.toNat - 0x41 + 10) := by
      rw [digitValue?, if_neg (by omega), if_pos (by omega)]
    exact ⟨_, digitIn?_of_value hvalue (by omega)⟩

/-! ### Integers -/

theorem takes_either (a b : Char) : (either a b).Takes fun u => ∃ c, u = [c] ∧ c ∈ [a, b] := by
  refine takes_one.imp ?_
  rintro _ ⟨c, rfl, hc⟩
  exact ⟨c, rfl, by simpa using hc⟩

theorem takes_lowLine : lowLine.Takes fun u => u = [] ∨ u = ['_'] :=
  (takes_exactly '_').optional

/-- A low line and digits, or digits alone, are a run behind a prefix. -/
theorem prefixedRun_of {base : Nat} {l u : List Char} (hl : l = [] ∨ l = ['_'])
    (hu : ∃ ds, DigitRun base u ds) : ∃ ds, PrefixedRun base (l ++ u) ds := by
  obtain ⟨ds, hu⟩ := hu
  rcases hl with rfl | rfl
  · exact ⟨ds, .direct hu⟩
  · exact ⟨ds, .gap hu⟩

/-- An integer of a base with a letter. -/
theorem takes_marked {base : Nat} {a b : Char} {test : Char → Bool}
    (ha : prefixBase? a = some base) (hb : prefixBase? b = some base)
    (htest : ∀ c, test c = true → ∃ d, digitIn? base c = some d) :
    (row [exactly '0', either a b, lowLine, digits test]).Takes
      fun u => ∃ base ds, IntegerForm u base ds := by
  refine (takes_row (.cons (takes_exactly '0') (.cons (takes_either a b)
    (.cons takes_lowLine (.cons (takes_digits htest) .nil))))).imp ?_
  rintro _ ⟨_, _, rfl, rfl, _, _, rfl, ⟨mark, rfl, hmark⟩, l, _, rfl, hl, u, _, rfl, hu, rfl⟩
  obtain ⟨ds, hrun⟩ := prefixedRun_of hl hu
  have hbase : prefixBase? mark = some base := by
    simp only [List.mem_cons, List.not_mem_nil, or_false] at hmark
    rcases hmark with rfl | rfl
    · exact ha
    · exact hb
  rw [List.append_nil]
  exact ⟨base, ds, .marked hbase hrun⟩

/-- Only zero has the value zero. -/
theorem eq_zero_of_digit {base : Nat} {c : Char} (h : digitIn? base c = some 0) : c = '0' := by
  obtain ⟨-, hr⟩ := digitIn?_eq_some h
  have hc : c.toNat = '0'.toNat := by
    show c.toNat = 0x30
    omega
  rw [← Char.ofNat_toNat c, hc]
  rfl

theorem digit_of_digitRun {base : Nat} {c : Char} {cs : List Char} {ds : List Nat}
    (h : DigitRun base (c :: cs) ds) : ∃ d more, ds = d :: more ∧ digitIn? base c = some d := by
  cases h with
  | last hc => exact ⟨_, _, rfl, hc⟩
  | next hc _ => exact ⟨_, _, rfl, hc⟩
  | gap hc _ => exact ⟨_, _, rfl, hc⟩

/-- A run of digits that does not begin with a zero. -/
theorem takes_decimal : Takes
    (fun gs => if (one (fun c => isDecimalDigit c && c != '0') gs).isSome
      then digits isDecimalDigit gs else none)
    fun u => ∃ base ds, IntegerForm u base ds := by
  intro cs n h
  dsimp only at h
  split at h
  · rename_i hone
    obtain ⟨u, v, rfl, hn, ds, hrun⟩ := takes_digits digit_of_isDecimalDigit cs n h
    refine ⟨u, v, rfl, hn, 10, ds, ?_⟩
    cases u with
    | nil => cases hrun
    | cons c u =>
        obtain ⟨d, more, rfl, hd⟩ := digit_of_digitRun hrun
        refine .decimal hrun ?_
        rintro rfl
        rw [eq_zero_of_digit hd] at hone
        cases hone
  · cases h

/-- **What the scan for integers takes is an integer literal.** -/
theorem takes_intScan : intScan.Takes fun u => ∃ base ds, IntegerForm u base ds := by
  refine takes_longest ?_
  simp only [List.forall_mem_cons, List.not_mem_nil, IsEmpty.forall_iff, implies_true, and_true]
  refine ⟨takes_marked rfl rfl digit_of_isBinaryDigit, ?_, takes_decimal, ?_,
    takes_marked rfl rfl digit_of_isHexadecimalDigit⟩
  · refine (takes_exactly '0').imp ?_
    rintro _ rfl
    exact ⟨10, [0], .zero⟩
  · refine (takes_row (.cons (takes_exactly '0') (.cons (takes_either 'o' 'O').optional
      (.cons takes_lowLine (.cons (takes_digits digit_of_isOctalDigit) .nil))))).imp ?_
    rintro _ ⟨_, _, rfl, rfl, m, _, rfl, hm, l, _, rfl, hl, u, _, rfl, hu, rfl⟩
    obtain ⟨ds, hrun⟩ := prefixedRun_of hl hu
    rw [List.append_nil]
    rcases hm with rfl | ⟨mark, rfl, hmark⟩
    · exact ⟨8, ds, .octal hrun⟩
    · refine ⟨8, ds, .marked ?_ hrun⟩
      simp only [List.mem_cons, List.not_mem_nil, or_false] at hmark
      rcases hmark with rfl | rfl <;> rfl

/-! ### Floats -/

theorem takes_exponentScan (a b : Char) : (exponentScan a b).Takes
    fun u => ∃ c x negative ds, u = c :: x ∧ c ∈ [a, b] ∧ SignedRun x negative ds := by
  refine (takes_row (.cons (takes_either a b) (.cons (takes_either '+' '-').optional
    (.cons (takes_digits digit_of_isDecimalDigit) .nil)))).imp ?_
  rintro _ ⟨_, _, rfl, ⟨c, rfl, hc⟩, sign, _, rfl, hsign, u, _, rfl, ⟨ds, hrun⟩, rfl⟩
  rw [List.append_nil]
  rcases hsign with rfl | ⟨sign, rfl, hsign⟩
  · exact ⟨c, u, false, ds, rfl, hc, .plain hrun⟩
  · simp only [List.mem_cons, List.not_mem_nil, or_false] at hsign
    rcases hsign with rfl | rfl
    · exact ⟨c, '+' :: u, false, ds, rfl, hc, .plus hrun⟩
    · exact ⟨c, '-' :: u, true, ds, rfl, hc, .minus hrun⟩

theorem takes_decimalExponent :
    (exponentScan 'e' 'E').Takes fun u => ∃ e, ExponentForm u e := by
  refine (takes_exponentScan 'e' 'E').imp ?_
  rintro _ ⟨c, x, negative, ds, rfl, hc, hx⟩
  cases hx with
  | plain h => exact ⟨_, .plain hc h⟩
  | plus h => exact ⟨_, .plus hc h⟩
  | minus h => exact ⟨_, .minus hc h⟩

theorem takes_binaryExponent :
    (exponentScan 'p' 'P').Takes fun u => ∃ negative ds, BinaryExponent u negative ds := by
  refine (takes_exponentScan 'p' 'P').imp ?_
  rintro _ ⟨c, x, negative, ds, rfl, hc, hx⟩
  exact ⟨negative, ds, .of hc hx⟩

theorem optionalRun_of {u : List Char} (h : u = [] ∨ ∃ ds, DigitRun 10 u ds) :
    ∃ ds, OptionalRun u ds := by
  rcases h with rfl | ⟨ds, h⟩
  · exact ⟨[], .none⟩
  · exact ⟨ds, .some h⟩

theorem optionalExponent_of {u : List Char} (h : u = [] ∨ ∃ e, ExponentForm u e) :
    ∃ e, OptionalExponent u e := by
  rcases h with rfl | ⟨e, h⟩
  · exact ⟨none, .none⟩
  · exact ⟨some e, .some h⟩

/-- The form of a floating-point literal, decimal or hexadecimal. -/
def IsFloat (u : List Char) : Prop := (∃ d, FloatForm u d) ∨ ∃ d, HexForm u d

/-- **What the scan for floats takes is a floating-point literal.** -/
theorem takes_floatScan : floatScan.Takes IsFloat := by
  have hdigits := takes_digits digit_of_isDecimalDigit
  have hhex := takes_digits digit_of_isHexadecimalDigit
  refine takes_longest ?_
  simp only [List.forall_mem_cons, List.not_mem_nil, IsEmpty.forall_iff, implies_true, and_true]
  refine ⟨?_, ?_, ?_, ?_, ?_, ?_⟩
  · refine (takes_row (.cons hdigits (.cons (takes_exactly '.') (.cons hdigits.optional
      (.cons takes_decimalExponent.optional .nil))))).imp ?_
    rintro _ ⟨w, _, rfl, ⟨ws, hw⟩, _, _, rfl, rfl, f, _, rfl, hf, x, _, rfl, hx, rfl⟩
    obtain ⟨fs, hf⟩ := optionalRun_of hf
    obtain ⟨e, hx⟩ := optionalExponent_of hx
    rw [List.append_nil]
    have hform := FloatForm.point hw hf hx
    exact .inl ⟨_, hform⟩
  · refine (takes_row (.cons hdigits (.cons takes_decimalExponent .nil))).imp ?_
    rintro _ ⟨w, _, rfl, ⟨ws, hw⟩, x, _, rfl, ⟨e, hx⟩, rfl⟩
    rw [List.append_nil]
    have hform := FloatForm.whole hw hx
    exact .inl ⟨_, hform⟩
  · refine (takes_row (.cons (takes_exactly '.') (.cons hdigits
      (.cons takes_decimalExponent.optional .nil)))).imp ?_
    rintro _ ⟨_, _, rfl, rfl, f, _, rfl, ⟨fs, hf⟩, x, _, rfl, hx, rfl⟩
    obtain ⟨e, hx⟩ := optionalExponent_of hx
    rw [List.append_nil]
    have hform := FloatForm.fraction hf hx
    exact .inl ⟨_, hform⟩
  · refine (takes_row (.cons (takes_exactly '0') (.cons (takes_either 'x' 'X')
      (.cons takes_lowLine (.cons hhex (.cons (takes_exactly '.') (.cons hhex.optional
        (.cons takes_binaryExponent .nil)))))))).imp ?_
    rintro _ ⟨_, _, rfl, rfl, _, _, rfl, ⟨mark, rfl, hm⟩, l, _, rfl, hl, w, _, rfl, hw, _, _, rfl,
      rfl, f, _, rfl, hf, x, _, rfl, ⟨negative, es, hx⟩, rfl⟩
    obtain ⟨ws, hw⟩ := prefixedRun_of hl hw
    rw [List.append_nil, ← List.append_assoc l w]
    rcases hf with rfl | ⟨fs, hf⟩
    · have hform := HexForm.point hm hw (.inl ⟨rfl, rfl⟩) hx
      exact .inr ⟨_, hform⟩
    · have hform := HexForm.point hm hw (.inr hf) hx
      exact .inr ⟨_, hform⟩
  · refine (takes_row (.cons (takes_exactly '0') (.cons (takes_either 'x' 'X')
      (.cons takes_lowLine (.cons hhex (.cons takes_binaryExponent .nil)))))).imp ?_
    rintro _ ⟨_, _, rfl, rfl, _, _, rfl, ⟨mark, rfl, hm⟩, l, _, rfl, hl, w, _, rfl, hw, x, _, rfl,
      ⟨negative, es, hx⟩, rfl⟩
    obtain ⟨ws, hw⟩ := prefixedRun_of hl hw
    rw [List.append_nil, ← List.append_assoc l w]
    have hform := HexForm.whole hm hw hx
    exact .inr ⟨_, hform⟩
  · refine (takes_row (.cons (takes_exactly '0') (.cons (takes_either 'x' 'X')
      (.cons (takes_exactly '.') (.cons hhex (.cons takes_binaryExponent .nil)))))).imp ?_
    rintro _ ⟨_, _, rfl, rfl, _, _, rfl, ⟨mark, rfl, hm⟩, _, _, rfl, rfl, f, _, rfl, ⟨fs, hf⟩,
      x, _, rfl, ⟨negative, es, hx⟩, rfl⟩
    rw [List.append_nil]
    have hform := HexForm.fraction hm hf hx
    exact .inr ⟨_, hform⟩

/-! ### Runes -/

/-- Characters that pass a test for digits spell a number. -/
theorem spells_of_forall {base : Nat} {test : Char → Bool}
    (htest : ∀ c, test c = true → ∃ d, digitIn? base c = some d) {u : List Char}
    (h : ∀ c ∈ u, test c = true) : ∃ ds, Spells base u ds := by
  induction u with
  | nil => exact ⟨[], .nil⟩
  | cons c u ih =>
      rw [List.forall_mem_cons] at h
      obtain ⟨d, hd⟩ := htest c h.1
      obtain ⟨ds, hs⟩ := ih h.2
      exact ⟨d :: ds, .cons hd hs⟩

/-- Behind an escape mark, a number of hexadecimal digits. -/
theorem takes_hexEscape {mark : Char} (hm : mark ∈ ['x', 'u', 'U']) (k : Nat) :
    (row [exactly mark, times isHexadecimalDigit (k + 1)]).Takes
      fun u => ∃ n, RuneSpelling ('\\' :: u) n := by
  refine (takes_row (.cons (takes_exactly mark) (.cons (takes_times (k + 1)) .nil))).imp ?_
  rintro _ ⟨_, _, rfl, rfl, u, _, rfl, ⟨hlength, hu⟩, rfl⟩
  obtain ⟨ds, hs⟩ := spells_of_forall digit_of_isHexadecimalDigit hu
  rw [List.append_nil]
  refine ⟨_, .hex hm hs ?_⟩
  rintro rfl
  rw [hs.length_eq] at hlength
  cases hlength

theorem takes_octalEscape (k : Nat) : (times isOctalDigit (k + 1)).Takes
    fun u => ∃ n, RuneSpelling ('\\' :: u) n := by
  refine (takes_times (k + 1)).imp ?_
  rintro u ⟨hlength, hu⟩
  obtain ⟨ds, hs⟩ := spells_of_forall digit_of_isOctalDigit hu
  refine ⟨_, .octal hs ?_⟩
  rintro rfl
  rw [hs.length_eq] at hlength
  cases hlength

theorem takes_letterEscape : (one isRuneEscape).Takes fun u => ∃ n, RuneSpelling ('\\' :: u) n := by
  refine takes_one.imp ?_
  rintro _ ⟨c, rfl, hc⟩
  have hmem : c ∈ ['a', 'b', 'f', 'n', 'r', 't', 'v', '\\', '\'', '"'] := by
    rwa [isRuneEscape, List.contains_iff_mem] at hc
  simp only [List.mem_cons, List.not_mem_nil, or_false] at hmem
  rcases hmem with rfl | rfl | rfl | rfl | rfl | rfl | rfl | rfl | rfl | rfl
  all_goals exact ⟨_, .letter rfl⟩

theorem takes_runeBodyScan : runeBodyScan.Takes fun u => ∃ n, RuneSpelling u n := by
  intro cs n h
  cases cs with
  | nil => cases h
  | cons c rest =>
      rw [List.map_cons] at h
      by_cases hc : c = '\\'
      · subst hc
        obtain ⟨k, hk, rfl⟩ := Option.map_eq_some_iff.mp h
        have hescape : Takes (longest [row [exactly 'x', times isHexadecimalDigit 2],
            times isOctalDigit 3, row [exactly 'u', times isHexadecimalDigit 4],
            row [exactly 'U', times isHexadecimalDigit 8], one isRuneEscape])
            fun u => ∃ n, RuneSpelling ('\\' :: u) n := by
          refine takes_longest ?_
          simp only [List.forall_mem_cons, List.not_mem_nil, IsEmpty.forall_iff, implies_true,
            and_true]
          exact ⟨takes_hexEscape (by decide) 1, takes_octalEscape 2, takes_hexEscape (by decide) 3,
            takes_hexEscape (by decide) 7, takes_letterEscape⟩
        obtain ⟨u, v, rfl, hn, hu⟩ := hescape rest k hk
        exact ⟨'\\' :: u, v, rfl, by rw [List.length_cons, hn, Nat.add_comm], hu⟩
      · rw [runeBodyScan.eq_def] at h
        split at h
        · rename_i e
          cases e
          exact absurd rfl hc
        · rename_i e
          cases e
          split at h
          · cases h
          · cases h
            exact ⟨[c], rest, rfl, rfl, _, .char hc⟩
        · rename_i e
          cases e
        · rename_i e
          cases e

/-- The form of a rune literal. -/
def IsRune (u : List Char) : Prop := ∃ body n, u = '\'' :: body ++ ['\''] ∧ RuneSpelling body n

/-- **What the scan for runes takes is a rune literal.** -/
theorem takes_runeScan : runeScan.Takes IsRune := by
  refine (takes_row (.cons (takes_exactly '\'') (.cons takes_runeBodyScan
    (.cons (takes_exactly '\'') .nil)))).imp ?_
  rintro _ ⟨_, _, rfl, rfl, body, _, rfl, ⟨n, hbody⟩, _, _, rfl, rfl, rfl⟩
  exact ⟨body, n, rfl, hbody⟩

end EnumHelpers.Source
