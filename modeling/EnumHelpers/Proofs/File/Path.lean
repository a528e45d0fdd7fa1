import EnumHelpers.File.Path
import EnumHelpers.Proofs.Text.Lines

/-!
# Proofs — names of files

A path whose text ends in a point and an ending leads to a file whose name does (`name_ofString`);
that is the suffix of the path, unless the name is nothing but the ending (`suffixOf_append`).
-/

namespace EnumHelpers.File.Path
open Text

variable {ending : List Char}

/-- The suffix of a name goes from its last point on, and is not the whole name. -/
theorem suffixOf_append (hne : ending ≠ []) (hpoint : '.' ∉ ending) (stem : List Char) :
    suffixOf (stem ++ '.' :: ending) = if stem = [] then [] else '.' :: ending := by
  have htail : (stem ++ '.' :: ending).reverse.takeWhile (· ≠ '.') = ending.reverse := by
    have hall : ∀ c ∈ ending.reverse, decide (c ≠ '.') = true := by
      intro c hc
      rw [decide_eq_true_iff]
      rintro rfl
      exact hpoint (List.mem_reverse.mp hc)
    rw [List.reverse_append, List.reverse_cons, List.append_assoc,
      List.takeWhile_append_of_pos hall, List.singleton_append,
      List.takeWhile_cons_of_neg (by decide), List.append_nil]
  have hlength : (stem ++ '.' :: ending).length = stem.length + (ending.length + 1) := by
    rw [List.length_append, List.length_cons]
  rw [suffixOf, htail, List.length_reverse, hlength, Nat.add_sub_cancel, List.drop_left]
  by_cases hstem : stem = []
  · rw [if_pos hstem, if_pos]
    exact .inr (by rw [hstem, List.length_nil]; omega)
  · have hpos : 0 < stem.length := List.length_pos_iff.mpr hstem
    rw [if_neg hstem, if_neg]
    rw [List.isEmpty_reverse, List.isEmpty_iff, not_or]
    exact ⟨hne, by omega⟩

/-- A text without slashes at the end of a path, other than a single point, ends the name of its
file. -/
theorem name_ofString {tail : List Char} (hslash : '/' ∉ tail) (hne : tail ≠ [])
    (hpoint : tail ≠ ['.']) (front : List Char) :
    ∃ stem, (ofString (String.ofList (front ++ tail))).name = String.ofList (stem ++ tail) := by
  obtain ⟨pieces, stem, hsplit⟩ := splitAtChar_append_of_notMem hslash front
  refine ⟨stem, ?_⟩
  have hkept : ∀ {cs : List Char}, stem ++ tail ≠ cs → String.ofList (stem ++ tail) ≠
      String.ofList cs := mt String.ofList_inj.mp
  have hsome : stem ++ tail ≠ [] := fun h => hne (List.append_eq_nil_iff.mp h).2
  have hother : stem ++ tail ≠ ['.'] := by
    intro h
    rcases List.append_eq_singleton_iff.mp h with ⟨-, htail⟩ | ⟨-, htail⟩
    · exact hpoint htail
    · exact hne htail
  have hlast : [String.ofList (stem ++ tail)].filter (fun x => x ≠ "" && x ≠ ".") =
      [String.ofList (stem ++ tail)] := by
    refine List.filter_cons_of_pos ?_
    rw [Bool.and_eq_true, decide_eq_true_iff, decide_eq_true_iff]
    exact ⟨hkept hsome, hkept hother⟩
  rw [name, ofString]
  dsimp only
  rw [String.toList_ofList, hsplit, List.map_append, List.filter_append, List.map_singleton, hlast,
    List.getLast?_append, List.getLast?_singleton]
  rfl

end EnumHelpers.File.Path
