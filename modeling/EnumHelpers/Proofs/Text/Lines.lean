import EnumHelpers.Text.Blank
import EnumHelpers.Text.Lines
import Mathlib.Data.List.Basic
import Mathlib.Data.List.DropRight

/-!
# Proofs — lines of a text

Cutting a text at a separator and putting the pieces together again, and removing the blanks at
the end of a line.

* `splitAtChar_append`: a separator cuts a text in two.
* `splitAtChar_intercalate`: pieces put together with separators are cut into the same pieces.
* `trimEndChars_isPrefix`: what is left of a line without the blanks at its end begins the line.
* `trimEndChars_append_of_getLast?`: the blanks at the end are behind whatever ends in none.
-/

namespace EnumHelpers.Text

variable {sep : Char}

theorem splitAtChar_ne_nil (cs : List Char) : splitAtChar sep cs ≠ [] := by
  cases cs with
  | nil => simp [splitAtChar]
  | cons c rest =>
      rw [splitAtChar]
      split
      · simp
      · split <;> simp

/-- A character joins the first piece, or closes an empty one. -/
theorem splitAtChar_cons (c : Char) (rest : List Char) :
    splitAtChar sep (c :: rest) =
      if c = sep then [] :: splitAtChar sep rest
      else (c :: (splitAtChar sep rest).headD []) :: (splitAtChar sep rest).tail := by
  rw [splitAtChar]
  cases h : splitAtChar sep rest with
  | nil => exact absurd h (splitAtChar_ne_nil rest)
  | cons piece pieces => rfl

theorem splitAtChar_append (a b : List Char) :
    splitAtChar sep (a ++ sep :: b) = splitAtChar sep a ++ splitAtChar sep b := by
  induction a with
  | nil => simp [splitAtChar_cons, splitAtChar]
  | cons c a ih =>
      rw [List.cons_append, splitAtChar_cons, splitAtChar_cons, ih]
      split
      · rfl
      · cases h : splitAtChar sep a with
        | nil => exact absurd h (splitAtChar_ne_nil a)
        | cons piece pieces => rfl

theorem splitAtChar_of_notMem {cs : List Char} (h : sep ∉ cs) : splitAtChar sep cs = [cs] := by
  induction cs with
  | nil => rfl
  | cons c rest ih =>
      obtain ⟨hc, hrest⟩ : sep ≠ c ∧ sep ∉ rest := by simpa using h
      rw [splitAtChar_cons, if_neg (Ne.symm hc), ih hrest]
      rfl

theorem notMem_of_mem_splitAtChar {cs piece : List Char} (h : piece ∈ splitAtChar sep cs) :
    sep ∉ piece := by
  induction cs generalizing piece with
  | nil => simp_all [splitAtChar]
  | cons c rest ih =>
      rw [splitAtChar_cons] at h
      cases hs : splitAtChar sep rest with
      | nil => exact absurd hs (splitAtChar_ne_nil rest)
      | cons first pieces =>
          have hfirst : sep ∉ first := ih (by simp [hs])
          have hpieces : ∀ p ∈ pieces, sep ∉ p := fun p hp => ih (by simp [hs, hp])
          rw [hs] at h
          split at h
          · rcases List.mem_cons.mp h with rfl | h
            · simp
            · exact ih (hs ▸ h)
          · rename_i hc
            rcases List.mem_cons.mp h with rfl | h
            · simpa [hs, Ne.symm hc] using hfirst
            · exact hpieces piece h

/-- A text is its first piece, and its other pieces behind separators. -/
theorem exists_splitAtChar_eq_cons (sep : Char) (cs : List Char) :
    ∃ first rest, splitAtChar sep cs = first :: rest ∧ cs = first ++ rest.flatMap (sep :: ·) := by
  induction cs with
  | nil => exact ⟨[], [], rfl, rfl⟩
  | cons c cs ih =>
      obtain ⟨first, rest, hsplit, hcs⟩ := ih
      rw [splitAtChar_cons, hsplit]
      split
      · rename_i hc
        exact ⟨[], first :: rest, rfl, by rw [hc, hcs]; rfl⟩
      · exact ⟨c :: first, rest, rfl, by rw [hcs]; rfl⟩

/-- Lines that end in separators are cut into the pieces of each, and an empty last piece. -/
theorem splitAtChar_flatMap (lines : List (List Char)) :
    splitAtChar sep (lines.flatMap (· ++ [sep])) = lines.flatMap (splitAtChar sep) ++ [[]] := by
  induction lines with
  | nil => rfl
  | cons line rest ih =>
      rw [List.flatMap_cons, List.append_assoc, List.singleton_append, splitAtChar_append, ih,
        List.flatMap_cons, List.append_assoc]

/-- Pieces put together with separators are cut into the same pieces. -/
theorem splitAtChar_intercalate {pieces : List (List Char)} (hne : pieces ≠ [])
    (h : ∀ p ∈ pieces, sep ∉ p) : splitAtChar sep ([sep].intercalate pieces) = pieces := by
  induction pieces with
  | nil => exact absurd rfl hne
  | cons p rest ih =>
      have hp : sep ∉ p := h p List.mem_cons_self
      cases rest with
      | nil => simpa using splitAtChar_of_notMem hp
      | cons q rest =>
          have hrest : ∀ x ∈ q :: rest, sep ∉ x := fun x hx => h x (List.mem_cons_of_mem _ hx)
          rw [List.intercalate_cons_cons, List.append_assoc, List.singleton_append,
            splitAtChar_append, splitAtChar_of_notMem hp, ih (List.cons_ne_nil _ _) hrest]
          rfl

/-- What follows the last separator stands at the end of the last piece. -/
theorem splitAtChar_append_of_notMem {tail : List Char} (h : sep ∉ tail) (cs : List Char) :
    ∃ pieces last, splitAtChar sep (cs ++ tail) = pieces ++ [last ++ tail] := by
  induction cs with
  | nil => exact ⟨[], [], splitAtChar_of_notMem h⟩
  | cons c cs ih =>
      obtain ⟨pieces, last, hsplit⟩ := ih
      rw [List.cons_append, splitAtChar_cons, hsplit]
      split
      · exact ⟨[] :: pieces, last, rfl⟩
      · cases pieces with
        | nil => exact ⟨[], c :: last, rfl⟩
        | cons piece pieces => exact ⟨(c :: piece) :: pieces, last, rfl⟩

/-- What stands before the first separator stands at the front of the first piece. -/
theorem splitAtChar_front {front : List Char} (h : sep ∉ front) (cs : List Char) :
    ∃ first pieces, splitAtChar sep cs = first :: pieces ∧
      splitAtChar sep (front ++ cs) = (front ++ first) :: pieces := by
  induction front with
  | nil =>
      obtain ⟨first, pieces, hcs⟩ : ∃ first pieces, splitAtChar sep cs = first :: pieces :=
        List.exists_cons_of_ne_nil (splitAtChar_ne_nil cs)
      exact ⟨first, pieces, hcs, hcs⟩
  | cons c front ih =>
      obtain ⟨hc, hfront⟩ : sep ≠ c ∧ sep ∉ front := by simpa using h
      obtain ⟨first, pieces, hcs, hsplit⟩ := ih hfront
      refine ⟨first, pieces, hcs, ?_⟩
      rw [List.cons_append, splitAtChar_cons, if_neg (Ne.symm hc), hsplit]
      rfl

/-- Texts with a separator between them are the first one and the others behind separators. -/
theorem intercalate_cons_eq_join (sep first : String) (rest : List String) :
    sep.intercalate (first :: rest) = first ++ String.join (rest.map (sep ++ ·)) := by
  induction rest generalizing first with
  | nil => simp
  | cons next rest ih =>
      rw [String.intercalate_cons_cons, ih, List.map_cons, String.join_cons, String.append_assoc,
        String.append_assoc]

/-! ### Blanks at the ends -/

/-- The numbers of the blank characters. -/
def blankNumbers : List Nat :=
  List.range' 0x09 5 ++ List.range' 0x1C 5 ++ List.range' 0x2000 11 ++
    [0x85, 0xA0, 0x1680, 0x2028, 0x2029, 0x202F, 0x205F, 0x3000]

theorem mem_blankNumbers {c : Char} (h : isBlank c = true) : c.toNat ∈ blankNumbers := by
  simp only [isBlank, Bool.or_eq_true, Bool.and_eq_true, decide_eq_true_eq, beq_iff_eq] at h
  simp only [blankNumbers, List.mem_append, List.mem_range'_1, List.mem_cons, List.not_mem_nil,
    or_false]
  omega

/-- Characters are not blank of a kind that no blank number has. -/
theorem isBlank_eq_false_of {p : Char → Bool}
    (hall : ∀ n ∈ blankNumbers, p (Char.ofNat n) = false) {c : Char} (h : p c = true) :
    isBlank c = false := by
  by_contra hb
  have hc := hall _ (mem_blankNumbers (Bool.not_eq_false _ ▸ hb))
  rw [Char.ofNat_toNat, h] at hc
  cases hc

theorem trimEndChars_isPrefix (cs : List Char) : trimEndChars cs <+: cs := by
  have h : cs.reverse.dropWhile isBlank <:+ cs.reverse := List.dropWhile_suffix isBlank
  simpa [trimEndChars] using List.reverse_prefix.mpr h

/-- A text that begins and ends in no blank is left as it is. -/
theorem trimChars_of_ends {cs : List Char}
    (hhead : ∀ c, cs.head? = some c → isBlank c = false)
    (hlast : ∀ c, cs.getLast? = some c → isBlank c = false) : trimChars cs = cs := by
  have hkeep : ∀ as : List Char, (∀ c, as.head? = some c → isBlank c = false) →
      as.dropWhile isBlank = as := by
    intro as has
    cases as with
    | nil => rfl
    | cons c rest => exact List.dropWhile_cons_of_neg (by simp [has c rfl])
  rw [trimChars, trimStartChars, hkeep cs hhead, trimEndChars,
    hkeep cs.reverse (by simpa using hlast), List.reverse_reverse]

/-- A text without blanks is left as it is. -/
theorem trimChars_of_isBlank_eq_false {cs : List Char} (h : ∀ c ∈ cs, isBlank c = false) :
    trimChars cs = cs :=
  trimChars_of_ends (fun c hc => h c (List.mem_of_mem_head? hc))
    fun c hc => h c (List.mem_of_getLast? hc)

/-- A text that ends in no blank is left as it is. -/
theorem trimEndChars_append {c : Char} (cs : List Char) (h : isBlank c = false) :
    trimEndChars (cs ++ [c]) = cs ++ [c] := by
  simp [trimEndChars, h]

theorem trimEndChars_eq_nil {cs : List Char} :
    trimEndChars cs = [] ↔ ∀ c ∈ cs, isBlank c = true :=
  List.rdropWhile_eq_nil_iff

theorem isBlank_of_getLast?_trimEndChars {cs : List Char} {c : Char}
    (h : (trimEndChars cs).getLast? = some c) : isBlank c = false := by
  have hhead := List.head?_dropWhile_not isBlank cs.reverse
  rw [trimEndChars, List.getLast?_reverse] at h
  rwa [h] at hhead

/-- Removing the blanks at the end of a text cuts it in two. -/
theorem exists_trimEndChars_append (cs : List Char) :
    ∃ blanks, trimEndChars cs ++ blanks = cs ∧ ∀ c ∈ blanks, isBlank c = true :=
  ⟨cs.rtakeWhile isBlank, List.rdropWhile_append_rtakeWhile, fun _ => List.mem_rtakeWhile_imp⟩

/-- The blanks at the end of a text are found behind a part of it that ends in no blank. -/
theorem trimEndChars_append_of_getLast? {a : List Char} {c : Char} (b : List Char)
    (hlast : a.getLast? = some c) (h : isBlank c = false) :
    trimEndChars (a ++ b) = a ++ trimEndChars b := by
  obtain ⟨init, rfl⟩ := List.getLast?_eq_some_iff.mp hlast
  rw [trimEndChars, trimEndChars, List.reverse_append, List.dropWhile_append]
  split
  · rename_i hempty
    rw [List.isEmpty_iff] at hempty
    simp [hempty, h]
  · simp

/-- A text without the blanks at its ends begins with no blank. -/
theorem trimStartChars_trimChars (cs : List Char) :
    trimStartChars (trimChars cs) = trimChars cs := by
  obtain ⟨more, hmore⟩ := trimEndChars_isPrefix (trimStartChars cs)
  cases htrim : trimChars cs with
  | nil => rfl
  | cons c rest =>
      -- the first character is that of the text without the blanks at its front
      have hhead := List.head?_dropWhile_not isBlank cs
      rw [trimChars] at htrim
      rw [← trimStartChars, ← hmore, htrim, List.cons_append, List.head?_cons] at hhead
      exact List.dropWhile_cons_of_neg (Bool.eq_false_iff.mp hhead)

theorem isBlank_of_head?_trimChars {cs : List Char} {c : Char}
    (h : (trimChars cs).head? = some c) : isBlank c = false := by
  have hhead := List.head?_dropWhile_not isBlank (trimChars cs)
  rwa [← trimStartChars, trimStartChars_trimChars, h] at hhead

/-- A text without the blanks at its ends is left as it is. -/
theorem trimChars_trimChars (cs : List Char) : trimChars (trimChars cs) = trimChars cs := by
  rw [trimChars, trimStartChars_trimChars]
  exact List.rdropWhile_idempotent isBlank _

end EnumHelpers.Text
