import EnumHelpers.Text.Utf8
import Mathlib.Data.Char
import Mathlib.Data.List.Basic

/-!
# Proofs — which bytes spell a text

The content of a file is read as a text if and only if its bytes are those that the library encodes
the text in (`textOfGlyphs_glyphsOfBytes`).  A lead byte and the bytes behind it are read
as a character exactly when they are the bytes of that character (`leadChar?_eq_some_iff`), so what
is read character by character is encoded character by character.
-/

namespace EnumHelpers.Text

/-- The bytes of a character. -/
def charBytes (c : Char) : List Nat := (String.utf8EncodeChar c).map UInt8.toNat

/-- The bytes of a text, as the library encodes it. -/
def utf8 (s : String) : List Nat := s.toByteArray.data.toList.map UInt8.toNat

theorem utf8_eq_flatMap (s : String) : utf8 s = s.toList.flatMap charBytes := by
  rw [utf8, ← String.utf8Encode_toList, List.utf8Encode, List.data_toByteArray,
    List.toList_toArray, List.map_flatMap]
  rfl

/-! ### The bytes of one character -/

section
variable {c : Char}

theorem toNat_cases (c : Char) : c.toNat < 0xD800 ∨ (0xDFFF < c.toNat ∧ c.toNat < 0x110000) :=
  c.valid

theorem toNat_byte {n : Nat} (h : n < 256) : (UInt8.ofNat n).toNat = n :=
  UInt8.toNat_ofNat_of_lt' h

theorem charBytes_one (h : c.toNat < 0x80) : charBytes c = [c.toNat] := by
  have hn : c.val.toNat ≤ 0x7F := Nat.le_of_lt_succ h
  rw [charBytes, String.utf8EncodeChar, if_pos hn, List.map_singleton]
  exact congrArg (fun n => [n]) (toNat_byte (by omega))

theorem charBytes_two (hlow : 0x80 ≤ c.toNat) (hhigh : c.toNat < 0x800) :
    charBytes c = [0xC0 + c.toNat / 64, 0x80 + c.toNat % 64] := by
  have hone : ¬ c.val.toNat ≤ 0x7F := Nat.not_le_of_gt hlow
  have htwo : c.val.toNat ≤ 0x7FF := Nat.le_of_lt_succ hhigh
  rw [charBytes, String.utf8EncodeChar, if_neg hone, if_pos htwo, List.map_cons, List.map_singleton,
    show c.val.toNat = c.toNat from rfl, toNat_byte (by omega), toNat_byte (by omega)]
  simp only [List.cons.injEq, and_true]
  omega

theorem charBytes_three (hlow : 0x800 ≤ c.toNat) (hhigh : c.toNat < 0x10000) : charBytes c =
    [0xE0 + c.toNat / 4096, 0x80 + c.toNat / 64 % 64, 0x80 + c.toNat % 64] := by
  have htwo : ¬ c.val.toNat ≤ 0x7FF := Nat.not_le_of_gt hlow
  have hone : ¬ c.val.toNat ≤ 0x7F := fun h => htwo (Nat.le_trans h (by decide))
  have hthree : c.val.toNat ≤ 0xFFFF := Nat.le_of_lt_succ hhigh
  rw [charBytes, String.utf8EncodeChar, if_neg hone, if_neg htwo, if_pos hthree, List.map_cons,
    List.map_cons, List.map_singleton, show c.val.toNat = c.toNat from rfl, toNat_byte (by omega),
    toNat_byte (by omega), toNat_byte (by omega)]
  simp only [List.cons.injEq, and_true]
  omega

theorem charBytes_four (hlow : 0x10000 ≤ c.toNat) : charBytes c =
    [0xF0 + c.toNat / 262144, 0x80 + c.toNat / 4096 % 64, 0x80 + c.toNat / 64 % 64,
      0x80 + c.toNat % 64] := by
  have hthree : ¬ c.val.toNat ≤ 0xFFFF := Nat.not_le_of_gt hlow
  have htwo : ¬ c.val.toNat ≤ 0x7FF := fun h => hthree (Nat.le_trans h (by decide))
  have hone : ¬ c.val.toNat ≤ 0x7F := fun h => htwo (Nat.le_trans h (by decide))
  have hvalid := toNat_cases c
  rw [charBytes, String.utf8EncodeChar, if_neg hone, if_neg htwo, if_neg hthree, List.map_cons,
    List.map_cons, List.map_cons, List.map_singleton, show c.val.toNat = c.toNat from rfl,
    toNat_byte (by omega), toNat_byte (by omega), toNat_byte (by omega), toNat_byte (by omega)]
  simp only [List.cons.injEq, and_true]
  omega

theorem charBytes_ne_nil (c : Char) : charBytes c ≠ [] :=
  mt List.map_eq_nil_iff.mp String.utf8EncodeChar_ne_nil

end

/-! ### Lead bytes -/

theorem isTail_iff {b : Nat} : isTail b = true ↔ 0x80 ≤ b ∧ b ≤ 0xBF := by
  simp [isTail]

/-- The byte behind a lead byte is one that may follow, except where it would spell a number that
is spelled shorter, a surrogate or one that is too large. -/
theorem followsLead_iff {lead b : Nat} : followsLead lead b = true ↔
    (0x80 ≤ b ∧ b ≤ 0xBF) ∧ (lead = 0xE0 → 0xA0 ≤ b) ∧ (lead = 0xED → b ≤ 0x9F) ∧
      (lead = 0xF0 → 0x90 ≤ b) ∧ (lead = 0xF4 → b ≤ 0x8F) := by
  rw [followsLead]
  split_ifs <;> simp <;> omega

theorem tailCount_cases (lead : Nat) :
    (0xC2 ≤ lead ∧ lead ≤ 0xDF ∧ tailCount lead = 1) ∨
    (0xE0 ≤ lead ∧ lead ≤ 0xEF ∧ tailCount lead = 2) ∨
    (0xF0 ≤ lead ∧ lead ≤ 0xF4 ∧ tailCount lead = 3) ∨
    ((lead < 0xC2 ∨ 0xF4 < lead) ∧ tailCount lead = 0) := by
  rw [tailCount]
  split_ifs <;> omega

theorem toNat_ofNat {n : Nat} (h : n < 0xD800 ∨ (0xDFFF < n ∧ n < 0x110000)) :
    (Char.ofNat n).toNat = n := by
  rw [Char.ofNat, dif_pos h]
  rfl

/-- What is read at a lead byte is the bytes of a character. -/
theorem charBytes_of_leadChar? {lead k : Nat} {rest : List Nat} {c : Char}
    (h : leadChar? lead rest = some (c, k)) :
    ∃ tail after, rest = tail ++ after ∧ tail.length = k ∧ charBytes c = lead :: tail := by
  have hlead := tailCount_cases lead
  unfold leadChar? at h
  split at h
  · obtain ⟨rfl, rfl⟩ := Prod.mk.inj (Option.some.inj h)
    have hn : (Char.ofNat lead).toNat = lead := toNat_ofNat (by omega)
    exact ⟨[], rest, rfl, rfl, by rw [charBytes_one (by omega), hn]⟩
  · split at h
    · rename_i b after hcount
      split at h
      · rename_i hb
        rw [followsLead_iff] at hb
        obtain ⟨rfl, rfl⟩ := Prod.mk.inj (Option.some.inj h)
        have hn := toNat_ofNat (n := (lead - 0xC0) * 64 + (b - 0x80)) (by omega)
        refine ⟨[b], after, rfl, rfl, ?_⟩
        rw [charBytes_two (by omega) (by omega), hn]
        simp only [List.cons.injEq, and_true]
        omega
      · cases h
    · rename_i b b' after hcount
      split at h
      · rename_i hb
        rw [Bool.and_eq_true, followsLead_iff, isTail_iff] at hb
        obtain ⟨rfl, rfl⟩ := Prod.mk.inj (Option.some.inj h)
        have hn := toNat_ofNat
          (n := (lead - 0xE0) * 4096 + (b - 0x80) * 64 + (b' - 0x80)) (by omega)
        refine ⟨[b, b'], after, rfl, rfl, ?_⟩
        rw [charBytes_three (by omega) (by omega), hn]
        simp only [List.cons.injEq, and_true]
        omega
      · cases h
    · rename_i b b' b'' after hcount
      split at h
      · rename_i hb
        rw [Bool.and_eq_true, Bool.and_eq_true, followsLead_iff, isTail_iff, isTail_iff] at hb
        obtain ⟨rfl, rfl⟩ := Prod.mk.inj (Option.some.inj h)
        have hn := toNat_ofNat (n := (lead - 0xF0) * 262144 + (b - 0x80) * 4096 +
          (b' - 0x80) * 64 + (b'' - 0x80)) (by omega)
        refine ⟨[b, b', b''], after, rfl, rfl, ?_⟩
        rw [charBytes_four (by omega), hn]
        simp only [List.cons.injEq, and_true]
        omega
      · cases h
    · cases h

/-- The bytes of a character are read as it. -/
theorem leadChar?_of_charBytes {lead : Nat} {tail : List Nat} {c : Char}
    (h : charBytes c = lead :: tail) (after : List Nat) :
    leadChar? lead (tail ++ after) = some (c, tail.length) := by
  have hread : ∀ n, n = c.toNat → some (Char.ofNat n, tail.length) = some (c, tail.length) := by
    rintro n rfl
    rw [Char.ofNat_toNat]
  have hvalid := toNat_cases c
  have hcount := tailCount_cases lead
  unfold leadChar?
  by_cases hone : c.toNat < 0x80
  · obtain ⟨rfl, rfl⟩ := List.cons.inj ((charBytes_one hone).symm.trans h)
    rw [if_pos hone]
    exact hread _ rfl
  · by_cases htwo : c.toNat < 0x800
    · obtain ⟨hl, rfl⟩ := List.cons.inj ((charBytes_two (by omega) htwo).symm.trans h)
      have htail : tailCount lead = 1 := by omega
      rw [if_neg (by omega), htail]
      simp only [List.cons_append, List.nil_append]
      have hfollows : followsLead lead (0x80 + c.toNat % 64) = true :=
        followsLead_iff.mpr (by omega)
      rw [if_pos hfollows]
      exact hread _ (by omega)
    · by_cases hthree : c.toNat < 0x10000
      · obtain ⟨hl, rfl⟩ := List.cons.inj ((charBytes_three (by omega) hthree).symm.trans h)
        have htail : tailCount lead = 2 := by omega
        rw [if_neg (by omega), htail]
        simp only [List.cons_append, List.nil_append]
        rw [if_pos (by rw [Bool.and_eq_true, followsLead_iff, isTail_iff]; omega)]
        exact hread _ (by omega)
      · obtain ⟨hl, rfl⟩ := List.cons.inj ((charBytes_four (by omega)).symm.trans h)
        have htail : tailCount lead = 3 := by omega
        rw [if_neg (by omega), htail]
        simp only [List.cons_append, List.nil_append]
        rw [if_pos (by rw [Bool.and_eq_true, Bool.and_eq_true, followsLead_iff, isTail_iff,
          isTail_iff]; omega)]
        exact hread _ (by omega)

/-! ### Whole contents -/

theorem glyphsFrom_append (tail after : List Nat) :
    glyphsFrom tail.length (tail ++ after) = glyphsFrom 0 after := by
  induction tail with
  | nil => rfl
  | cons b tail ih => exact ih

/-- A content has no stray byte if and only if its bytes are those of its characters. -/
theorem charsOfGlyphs_glyphsFrom {bytes : List Nat} {cs : List Char} :
    charsOfGlyphs (glyphsFrom 0 bytes) = some cs ↔ bytes = cs.flatMap charBytes := by
  induction hlength : bytes.length using Nat.strong_induction_on generalizing bytes cs with
  | _ length ih =>
  subst hlength
  cases bytes with
  | nil =>
      cases cs with
      | nil => simp [glyphsFrom, charsOfGlyphs]
      | cons c cs => simp [glyphsFrom, charsOfGlyphs, charBytes_ne_nil]
  | cons lead rest =>
      rw [glyphsFrom]
      cases hlead : leadChar? lead rest with
      | none =>
          dsimp only
          rw [charsOfGlyphs]
          refine ⟨fun h => (Option.some_ne_none _ h.symm).elim, fun h => ?_⟩
          cases cs with
          | nil => cases h
          | cons c cs =>
              obtain ⟨b, tail, hbytes⟩ := List.exists_cons_of_ne_nil (charBytes_ne_nil c)
              rw [List.flatMap_cons, hbytes, List.cons_append] at h
              obtain ⟨rfl, rfl⟩ := List.cons.inj h
              rw [leadChar?_of_charBytes hbytes] at hlead
              cases hlead
      | some found =>
          obtain ⟨c, k⟩ := found
          obtain ⟨tail, after, rfl, rfl, hbytes⟩ := charBytes_of_leadChar? hlead
          have hafter : ∀ cs, charsOfGlyphs (glyphsFrom 0 after) = some cs ↔
              after = cs.flatMap charBytes :=
            fun cs => ih after.length
              (by simp only [List.length_cons, List.length_append]; omega) rfl
          dsimp only
          rw [glyphsFrom_append, charsOfGlyphs, Option.map_eq_some_iff]
          constructor
          · rintro ⟨more, hmore, rfl⟩
            rw [List.flatMap_cons, hbytes, (hafter more).mp hmore, List.cons_append]
          · intro h
            cases cs with
            | nil => cases h
            | cons c' cs =>
                obtain ⟨b, tail', hbytes'⟩ := List.exists_cons_of_ne_nil (charBytes_ne_nil c')
                rw [List.flatMap_cons, hbytes', List.cons_append] at h
                obtain ⟨rfl, hrest⟩ := List.cons.inj h
                -- both are read at the same lead byte
                rw [hrest, leadChar?_of_charBytes hbytes'] at hlead
                obtain ⟨rfl, -⟩ := Prod.mk.inj (Option.some.inj hlead)
                obtain ⟨-, rfl⟩ := List.cons.inj (hbytes'.symm.trans hbytes)
                exact ⟨cs, (hafter cs).mpr (List.append_cancel_left hrest), rfl⟩

/-- **Bytes are read as a text if and only if they are those of the text.** -/
theorem textOfGlyphs_glyphsOfBytes {bytes : List Nat} {text : String} :
    textOfGlyphs (glyphsOfBytes bytes) = some text ↔ bytes = utf8 text := by
  rw [utf8_eq_flatMap, ← charsOfGlyphs_glyphsFrom, textOfGlyphs, Option.map_eq_some_iff]
  constructor
  · rintro ⟨cs, hcs, rfl⟩
    rw [String.toList_ofList]
    exact hcs
  · exact fun h => ⟨text.toList, h, String.ofList_toList⟩

end EnumHelpers.Text
