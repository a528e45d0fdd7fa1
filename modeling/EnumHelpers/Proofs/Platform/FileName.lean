import EnumHelpers.Proofs.Emission.Naming
import EnumHelpers.Proofs.Package.Directory
import EnumHelpers.Proofs.Text.Lower

/-!
# Proofs — the name of the output file

When no output is given, the helpers of a single type go to a file that is called after it: the
small-letter form of its name and a fixed ending.  Behind the last low line of that ending stands
neither a system nor an architecture, so the file is of every platform (`selectedBy_ending`).  What
remains is the front of the name: a file whose name begins with a low line or a point is of no
package.

* `outputName_selected_iff`: the file belongs to the package if and only if the name of the type
  does not begin with a low line.
-/

namespace EnumHelpers.Target
open Text

variable {target : Target}

/-- The ending of a file that is called after its type. -/
def ending : String := "_enumer.go"

theorem startsWith_singleton {leading : String} {c : Char} (h : leading.toList = [c])
    (text : String) : startsWith leading text = true ↔ text.toList.head? = some c := by
  rw [startsWith, h]
  cases text.toList with
  | nil => exact ⟨nofun, nofun⟩
  | cons d rest => simp [List.isPrefixOf, eq_comm (a := c)]

theorem withoutEnd_append (trailing text : String) :
    withoutEnd trailing (text ++ trailing) = text := by
  have hends : endsWith trailing (text ++ trailing) = true := by
    rw [Package.endsWith_iff, String.toList_append]
    exact List.suffix_append _ _
  rw [withoutEnd, if_pos hends]
  simp

/-- Texts with other last characters do not end alike. -/
theorem endsWith_eq_false {trailing text : String} {c d : Char}
    (hc : trailing.toList.getLast? = some c) (hd : text.toList.getLast? = some d) (h : c ≠ d) :
    endsWith trailing text = false := by
  by_contra hends
  obtain ⟨front, hfront⟩ := Package.endsWith_iff.mp (Bool.not_eq_false _ ▸ hends)
  rw [← hfront, List.getLast?_append, hc] at hd
  exact h (Option.some.inj hd)

theorem endsWith_append (trailing text tail : String) :
    endsWith (trailing ++ tail) (text ++ tail) = endsWith trailing text := by
  rw [Bool.eq_iff_iff, Package.endsWith_iff, Package.endsWith_iff, String.toList_append,
    String.toList_append]
  constructor
  · rintro ⟨front, hfront⟩
    exact ⟨front, List.append_cancel_right ((List.append_assoc _ _ _).trans hfront)⟩
  · rintro ⟨front, hfront⟩
    exact ⟨front, by rw [← List.append_assoc, hfront]⟩

theorem append_ending (stem : String) : stem ++ ending = (stem ++ "_enumer") ++ ".go" := by
  rw [String.append_assoc]
  rfl

theorem endsWith_test_stem (stem : String) : endsWith "_test" (stem ++ "_enumer") = false :=
  endsWith_eq_false (c := 't') (d := 'r') rfl (by simp) (by decide)

/-- Such a file is no test. -/
theorem endsWith_test_ending (stem : String) : endsWith "_test.go" (stem ++ ending) = false := by
  rw [append_ending, show "_test.go" = "_test" ++ ".go" from rfl, endsWith_append,
    endsWith_test_stem]

/-- The parts of the name end in one that is neither a system nor an architecture. -/
theorem platformParts_append_ending (stem : String) :
    ∃ parts, platformParts (stem ++ ending) = parts ++ ["enumer"] := by
  have htest : withoutEnd "_test" (stem ++ "_enumer") = stem ++ "_enumer" := by
    rw [withoutEnd, endsWith_test_stem, if_neg Bool.false_ne_true]
  obtain ⟨first, pieces, hpieces⟩ : ∃ first pieces, splitAtChar '_' stem.toList = first :: pieces :=
    List.exists_cons_of_ne_nil (splitAtChar_ne_nil _)
  have hsplit : splitAtChar '_' (stem ++ "_enumer").toList =
      first :: pieces ++ ["enumer".toList] := by
    rw [← hpieces, String.toList_append]
    exact splitAtChar_append stem.toList "enumer".toList
  refine ⟨pieces.map String.ofList, ?_⟩
  rw [platformParts, append_ending, withoutEnd_append, htest, hsplit]
  simp

/-- Such a file is one of every platform. -/
theorem selectedBy_ending (stem : String) :
    target.selectedBy (platformParts (stem ++ ending)).reverse = true := by
  obtain ⟨parts, hparts⟩ := platformParts_append_ending stem
  have hsystem : knownSystems.contains "enumer" = false := by decide
  have harchitecture : knownArchitectures.contains "enumer" = false := by decide
  rw [hparts, List.reverse_append, List.reverse_singleton, List.singleton_append]
  cases parts.reverse with
  | nil => simp only [selectedBy, hsystem, harchitecture, Bool.false_eq_true, if_false]
  | cons second more =>
      simp only [selectedBy, hsystem, harchitecture, Bool.and_false, Bool.false_eq_true, if_false]

/-- Which of these files are selected shows at the first character of the stem. -/
theorem matchesFileName_append_ending {stem : String} (hne : stem.toList ≠ []) :
    target.matchesFileName (stem ++ ending) = true ↔
      stem.toList.head? ≠ some '_' ∧ stem.toList.head? ≠ some '.' := by
  have hhead : (stem ++ ending).toList.head? = stem.toList.head? := by
    rw [String.toList_append]
    exact List.head?_append_of_ne_nil _ hne
  have hline := startsWith_singleton (show "_".toList = ['_'] from rfl) (stem ++ ending)
  have hpoint := startsWith_singleton (show ".".toList = ['.'] from rfl) (stem ++ ending)
  rw [hhead] at hline hpoint
  rw [matchesFileName, selectedBy_ending, Bool.and_true, Bool.and_eq_true, Bool.not_eq_true',
    Bool.not_eq_true', ← Bool.not_eq_true, ← Bool.not_eq_true, hline, hpoint]

end EnumHelpers.Target

namespace EnumHelpers.Settings
open Emission Text

variable {s : Settings} {name : String}

/-- A low line or a point begins the name of the output file where it begins that of the type. -/
theorem head?_lower_of_plain {c : Char} (hc : c = '_' ∨ c = '.') :
    (lower name).toList.head? = some c ↔ name.toList.head? = some c := by
  refine head?_lower ?_ name
  rcases hc with rfl | rfl
  · exact ⟨by decide, by decide, by decide +kernel⟩
  · exact ⟨by decide, by decide, by decide +kernel⟩

/-- **Whether the output file belongs to the package.**  When no output is given, the file for a
single type is selected, at every target, if and only if the name of the type does not begin with a
low line.  It is never a test, so that this is also when the file is one of the package. -/
theorem outputName_selected_iff (htypes : s.typeNames = [name]) (houtput : s.givenOutput = none)
    (hname : isIdentifier name = true) (target : Target) :
    (target.matchesFileName s.outputName = true ↔ name.toList.head? ≠ some '_') ∧
    Target.endsWith "_test.go" s.outputName = false ∧
    ∀ content, Package.isSelected target (s.outputName, .file content) = true ↔
      name.toList.head? ≠ some '_' := by
  have hfile : s.outputName = lower name ++ Target.ending := by
    rw [outputName, houtput, htypes]
    rfl
  obtain ⟨c, rest, hcs, hword⟩ := exists_cons_of_isIdentifier hname
  have hpoint : (lower name).toList.head? ≠ some '.' := by
    rw [Ne, head?_lower_of_plain (.inr rfl), hcs, List.head?_cons, Option.some_inj]
    rintro rfl
    revert hword
    decide
  have hne : (lower name).toList ≠ [] := toList_lower_ne_nil (hcs ▸ List.cons_ne_nil _ _)
  have hmatches : target.matchesFileName s.outputName = true ↔ name.toList.head? ≠ some '_' := by
    rw [hfile, Target.matchesFileName_append_ending hne, and_iff_left hpoint, Ne,
      head?_lower_of_plain (.inl rfl)]
  have htest : Target.endsWith "_test.go" s.outputName = false := by
    rw [hfile, Target.endsWith_test_ending]
  have hgo : ".go".toList <:+ s.outputName.toList := by
    rw [hfile, Target.append_ending, String.toList_append]
    exact List.suffix_append _ _
  have hkind : ¬ "_test.go".toList <:+ s.outputName.toList := by
    rw [← Package.endsWith_iff, htest]
    exact Bool.false_ne_true
  refine ⟨hmatches, htest, fun content => ?_⟩
  rw [Package.isSelected_iff, hmatches]
  exact ⟨fun h => h.2.2.2, fun h => ⟨nofun, hgo, hkind, h⟩⟩

/-- Settings for a type whose name holds that of a system. -/
def systemSettings : Settings := { typeNames := ["İo_Windows"] }

theorem outputName_systemSettings : systemSettings.outputName = "i̇o_windows_enumer.go" ∧
    (⟨"linux", "amd64"⟩ : Target).matchesFileName systemSettings.outputName = true := by
  refine ⟨by decide +kernel, ?_⟩
  exact (outputName_selected_iff rfl rfl (by decide +kernel) _).1.mpr (by decide)

/-- Settings for a type whose name begins with a low line. -/
def hiddenSettings : Settings := { typeNames := ["_A"] }

/-- The file for a type whose name begins with a low line is not selected. -/
theorem hidden_output_not_selected : isIdentifier "_A" = true ∧
    hiddenSettings.outputName = "_a_enumer.go" ∧
    (⟨"linux", "amd64"⟩ : Target).matchesFileName hiddenSettings.outputName = false := by
  decide +kernel

end EnumHelpers.Settings
