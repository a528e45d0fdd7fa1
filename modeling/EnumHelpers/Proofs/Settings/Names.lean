import EnumHelpers.Settings.Basic
import Mathlib.Data.List.Basic

/-!
# Proofs — the type names of settings

The type names of a run are generated in the order of their code points, so the order in which they
are given does not matter (`sortedTypeNames_of_perm`).
-/

namespace EnumHelpers.Settings

theorem textLE_iff {a b : String} : textLE a b = true ↔ a ≤ b := by
  rw [textLE, Bool.not_eq_true', decide_eq_false_iff_not, String.not_lt]

theorem textLE_trans (a b c : String) (hab : textLE a b = true) (hbc : textLE b c = true) :
    textLE a c = true :=
  textLE_iff.mpr (String.le_trans (textLE_iff.mp hab) (textLE_iff.mp hbc))

theorem textLE_total (a b : String) : (textLE a b || textLE b a) = true := by
  rw [Bool.or_eq_true, textLE_iff, textLE_iff]
  exact String.le_total a b

theorem pairwise_sortTexts (texts : List String) : (sortTexts texts).Pairwise (· ≤ ·) :=
  (List.pairwise_mergeSort textLE_trans textLE_total texts).imp textLE_iff.mp

/-- Texts are put in order whatever order they stand in. -/
theorem sortTexts_of_perm {texts texts' : List String} (h : texts.Perm texts') :
    sortTexts texts = sortTexts texts' := by
  refine List.Perm.eq_of_pairwise (fun a b _ _ => String.le_antisymm) (pairwise_sortTexts texts)
    (pairwise_sortTexts texts') ?_
  exact (List.mergeSort_perm _ _).trans (h.trans (List.mergeSort_perm _ _).symm)

/-! ### Entries by name -/

/-- Entries with distinct names have names that go up when they are put in order. -/
theorem increasing_mergeSort {β : Type} {entries : List (String × β)}
    (hn : (entries.map Prod.fst).Nodup) :
    ((entries.mergeSort fun a b => textLE a.1 b.1).map Prod.fst).Pairwise (· < ·) := by
  have htrans : ∀ a b c : String × β, textLE a.1 b.1 = true → textLE b.1 c.1 = true →
      textLE a.1 c.1 = true := fun a b c => textLE_trans a.1 b.1 c.1
  have htotal : ∀ a b : String × β, (textLE a.1 b.1 || textLE b.1 a.1) = true :=
    fun a b => textLE_total a.1 b.1
  have hle := List.pairwise_mergeSort htrans htotal entries
  have hnodup : ((entries.mergeSort fun a b => textLE a.1 b.1).map Prod.fst).Nodup :=
    ((List.mergeSort_perm entries _).map Prod.fst).nodup_iff.mpr hn
  generalize (entries.mergeSort fun a b => textLE a.1 b.1) = ordered at hle hnodup ⊢
  rw [List.Nodup, List.pairwise_map] at hnodup
  rw [List.pairwise_map]
  refine (hle.and hnodup).imp ?_
  rintro a b ⟨hle, hne⟩
  by_contra hlt
  exact hne (String.le_antisymm (textLE_iff.mp hle) (String.not_lt.mp hlt))

/-- Entries whose names go up stand in one order only. -/
theorem eq_of_increasing {β : Type} {xs ys : List (String × β)} (h : xs.Perm ys)
    (hx : (xs.map Prod.fst).Pairwise (· < ·)) (hy : (ys.map Prod.fst).Pairwise (· < ·)) :
    xs = ys := by
  have hx : xs.Pairwise fun a b => a.1 < b.1 := List.pairwise_map.mp hx
  have hy : ys.Pairwise fun a b => a.1 < b.1 := List.pairwise_map.mp hy
  exact h.eq_of_pairwise (fun _ _ _ _ hab hba => (String.lt_asymm hab hba).elim) hx hy

/-! ### The type names of a run -/

/-- The same settings with one type name only. -/
def only (s : Settings) (name : String) : Settings := { s with typeNames := [name] }

@[simp]
theorem typeNames_only (s : Settings) (name : String) : (s.only name).typeNames = [name] := rfl

variable {s : Settings}

theorem perm_sortedTypeNames (s : Settings) : s.sortedTypeNames.Perm s.typeNames :=
  List.mergeSort_perm _ _

/-- Type names are generated in the order of their code points. -/
theorem pairwise_sortedTypeNames (s : Settings) : s.sortedTypeNames.Pairwise (· ≤ ·) :=
  pairwise_sortTexts s.typeNames

theorem sortedTypeNames_of_perm {names : List String} (h : names.Perm s.typeNames) :
    { s with typeNames := names }.sortedTypeNames = s.sortedTypeNames :=
  sortTexts_of_perm h

theorem sortedTypeNames_only (s : Settings) (name : String) :
    (s.only name).sortedTypeNames = [name] :=
  List.mergeSort_singleton name

end EnumHelpers.Settings
