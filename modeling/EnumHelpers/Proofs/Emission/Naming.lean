import EnumHelpers.Emission.Naming
import EnumHelpers.Proofs.Emission.Report
import EnumHelpers.Proofs.Text.Character

/-!
# Proofs — names

A name is a letter and then letters and decimal digits, and is not reserved; the low line counts as
a letter.  The check of names passes every name, and passes two kinds of *loose* texts with them: a
line feed at the end is not seen, and every number counts as a letter, be it a decimal digit or not.

* `isName_iff`: the names are the texts that are passed and not loose.
* `passed_iff_isName`: the check is right for a text, and so is that of a package name, if and only
  if the text is not passed or not loose; the names in a job without faults are names if and only if
  none is loose.
-/

namespace EnumHelpers.Emission
open Text

/-- A name, as the language spells it. -/
structure IsName (s : String) : Prop where
  spelled : ∃ first rest, s.toList = first :: rest ∧ isNameLetter first = true ∧
    ∀ c ∈ rest, isNameLetter c = true ∨ isDecimal c = true
  notReserved : s ∉ reservedWords

/-- A text with something in it that no name has and the check does not see: a line feed at its
end, or a number that is no decimal digit. -/
def Loose (s : String) : Prop :=
  s.toList.getLast? = some '\n' ∨ ∃ c ∈ s.toList, isOtherNumber c = true

instance (s : String) : Decidable (Loose s) :=
  decidable_of_iff (s.toList.getLast? = some '\n' ∨ s.toList.any isOtherNumber = true)
    (by rw [Loose, List.any_eq_true])

theorem withoutLastLineFeed_of_ne {cs : List Char} (h : cs.getLast? ≠ some '\n') :
    withoutLastLineFeed cs = cs := if_neg h

theorem IsName.isWord {s : String} (h : IsName s) : isWord s = true := by
  obtain ⟨first, rest, hs, hfirst, hrest⟩ := h.spelled
  have hbreak : rest.getLast? ≠ some '\n' := by
    intro hlast
    have hn := hrest '\n' (List.mem_of_getLast? hlast)
    revert hn
    decide
  rw [Emission.isWord, hs, isWordOf, withoutLastLineFeed_of_ne hbreak, Bool.and_eq_true,
    List.all_eq_true]
  refine ⟨by simp [isWordChar_eq, hfirst, isDecimal_of_isNameLetter hfirst], fun c hc => ?_⟩
  rcases hrest c hc with hl | hd
  · simp [isWordChar_eq, hl]
  · simp [isWordChar_eq, hd]

theorem IsName.not_loose {s : String} (h : IsName s) : ¬ Loose s := by
  obtain ⟨first, rest, hs, hfirst, hrest⟩ := h.spelled
  have hall : ∀ c ∈ s.toList, isNameLetter c = true ∨ isDecimal c = true := by
    rw [hs, List.forall_mem_cons]
    exact ⟨.inl hfirst, hrest⟩
  rintro (hlast | ⟨c, hc, hnumber⟩)
  · have hn := hall '\n' (List.mem_of_getLast? hlast)
    revert hn
    decide
  · rcases hall c hc with hl | hd
    · rw [isOtherNumber_of_isNameLetter hl] at hnumber
      cases hnumber
    · rw [isOtherNumber_of_isDecimal hd] at hnumber
      cases hnumber

/-- **The names are the texts that are passed and not loose.** -/
theorem isName_iff {s : String} : IsName s ↔ isIdentifier s = true ∧ ¬ Loose s := by
  constructor
  · intro h
    refine ⟨?_, h.not_loose⟩
    simpa [isIdentifier, h.isWord] using h.notReserved
  · rintro ⟨hpassed, hloose⟩
    rw [Loose, not_or] at hloose
    obtain ⟨hbreak, hnumber⟩ := hloose
    simp only [isIdentifier, isWord, Bool.and_eq_true, Bool.not_eq_true',
      List.contains_eq_mem, decide_eq_false_iff_not] at hpassed
    obtain ⟨hword, hreserved⟩ := hpassed
    refine ⟨?_, hreserved⟩
    cases hs : s.toList with
    | nil =>
        rw [hs] at hword
        cases hword
    | cons first rest =>
        have hplain : ∀ c ∈ first :: rest, isWordChar c = true →
            isNameLetter c = true ∨ isDecimal c = true := by
          intro c hc hw
          rw [isWordChar_eq, Bool.or_eq_true, Bool.or_eq_true] at hw
          exact hw.resolve_right fun h => hnumber ⟨c, hs ▸ hc, h⟩
        rw [hs] at hword hbreak
        have hrest : withoutLastLineFeed rest = rest := by
          refine withoutLastLineFeed_of_ne fun hlast => hbreak ?_
          rw [List.getLast?_cons, hlast]
          rfl
        rw [isWordOf, hrest, Bool.and_eq_true, Bool.and_eq_true, Bool.not_eq_true',
          List.all_eq_true] at hword
        obtain ⟨⟨hfirst, hdecimal⟩, hword⟩ := hword
        refine ⟨first, rest, rfl, ?_, fun c hc => hplain c (List.mem_cons_of_mem _ hc) (hword c hc)⟩
        exact (hplain first List.mem_cons_self hfirst).resolve_right (by simp [hdecimal])

/-- What is passed begins with a character of a word. -/
theorem exists_cons_of_isIdentifier {s : String} (h : isIdentifier s = true) :
    ∃ first rest, s.toList = first :: rest ∧ isWordChar first = true := by
  simp only [isIdentifier, isWord, Bool.and_eq_true] at h
  cases hs : s.toList with
  | nil =>
      rw [hs] at h
      cases h.1
  | cons first rest =>
      simp only [hs, isWordOf, Bool.and_eq_true] at h
      exact ⟨first, rest, rfl, h.1.1.1⟩

/-- What is passed is a word, with or without a line feed at the end. -/
theorem exists_word_of_isIdentifier {s : String} (h : isIdentifier s = true) :
    ∃ word, IsWord word ∧ word.toList ≠ [] ∧ (s = word ∨ s = word ++ "\n") := by
  obtain ⟨first, rest, hs, hfirst⟩ := exists_cons_of_isIdentifier h
  simp only [isIdentifier, isWord, hs, isWordOf, Bool.and_eq_true, List.all_eq_true] at h
  obtain ⟨⟨-, hrest⟩, -⟩ := h
  by_cases hlast : rest.getLast? = some '\n'
  · rw [withoutLastLineFeed, if_pos hlast] at hrest
    obtain ⟨init, rfl⟩ := List.getLast?_eq_some_iff.mp hlast
    rw [List.dropLast_concat] at hrest
    refine ⟨String.ofList (first :: init), ?_, by simp, .inr ?_⟩
    · rw [IsWord, String.toList_ofList, List.forall_mem_cons]
      exact ⟨hfirst, hrest⟩
    · rw [← String.toList_inj, hs, String.toList_append, String.toList_ofList]
      rfl
  · rw [withoutLastLineFeed_of_ne hlast] at hrest
    refine ⟨s, ?_, hs ▸ List.cons_ne_nil _ _, .inl rfl⟩
    rw [IsWord, hs, List.forall_mem_cons]
    exact ⟨hfirst, hrest⟩

/-- A package name is without fault when it is passed as a name. -/
theorem packageFaults_eq_nil_iff {s : String} : packageFaults s = [] ↔ isIdentifier s = true := by
  by_cases hs : s = ""
  · subst hs
    decide
  · rw [packageFaults, if_neg hs, List.append_eq_nil_iff, isIdentifier, Bool.and_eq_true]
    simp

end EnumHelpers.Emission

namespace EnumHelpers.Job
open Emission

/-- The names in a job: that of the package, those of the types and those of the constants. -/
def names (job : Job) : List String :=
  job.package :: job.typeNames ++ job.enumSets.flatMap fun entry => entry.2.elements.map (·.name)

/-- The names in a job without faults are passed. -/
theorem isIdentifier_of_mem_names {job : Job} (h : job.faults = []) :
    ∀ name ∈ job.names, isIdentifier name = true := by
  obtain ⟨hpackage, -, htypes, hconstants⟩ := faults_eq_nil_iff.mp h
  simp only [names, List.cons_append, List.forall_mem_cons, List.forall_mem_append,
    List.forall_mem_flatMap, List.forall_mem_map]
  exact ⟨packageFaults_eq_nil_iff.mp hpackage, fun name hn => (htypes name hn).1, hconstants⟩

/-- **What is passed as a name.**  For a text, and for the name of a package, the check answers as
the spelling of names does, if and only if the text is not passed or not loose.  The names in a job
without faults are names if and only if none of them is loose. -/
theorem passed_iff_isName (s : String) (job : Job) :
    ((isIdentifier s = true ↔ IsName s) ↔ ¬ (isIdentifier s = true ∧ Loose s)) ∧
    ((packageFaults s = [] ↔ IsName s) ↔ ¬ (isIdentifier s = true ∧ Loose s)) ∧
    (job.faults = [] →
      ((∀ name ∈ job.names, IsName name) ↔ ∀ name ∈ job.names, ¬ Loose name)) := by
  have hright : (isIdentifier s = true ↔ IsName s) ↔ ¬ (isIdentifier s = true ∧ Loose s) := by
    rw [isName_iff, not_and]
    constructor
    · exact fun h hp => (h.mp hp).2
    · exact fun h => ⟨fun hp => ⟨hp, h hp⟩, And.left⟩
  refine ⟨hright, by rwa [packageFaults_eq_nil_iff], fun hjob => ?_⟩
  refine forall₂_congr fun name hname => ?_
  rw [isName_iff]
  exact and_iff_right (isIdentifier_of_mem_names hjob name hname)

/-- A job whose names have letters of several kinds. -/
def letteredJob : Job :=
  ⟨"größe", ["Größe", "_x1"], [("Größe", EnumSet.ofElements "Größe" [⟨"Σ٢", 1, "a"⟩]),
    ("_x1", EnumSet.ofElements "_x1" [⟨"_", 1, "a"⟩])], [.base], "enumer"⟩

theorem isName_letteredJob : letteredJob.faults = [] ∧ ∀ name ∈ letteredJob.names, IsName name := by
  have hfaults : letteredJob.faults = [] := by decide +kernel
  exact ⟨hfaults, ((passed_iff_isName "größe" letteredJob).2.2 hfaults).mpr (by decide +kernel)⟩

/-- A job whose names are loose. -/
def looseJob : Job :=
  ⟨"p\n", ["T\n"], [("T\n", EnumSet.ofElements "T\n" [⟨"x²", 1, "a"⟩])], [.base], "enumer"⟩

/-- A line feed at the end, a superscript and a fraction in front are passed. -/
theorem loose_names_passed :
    (∀ s ∈ ["A\n", "x²", "½"], isIdentifier s = true ∧ packageFaults s = [] ∧ ¬ IsName s) ∧
    looseJob.faults = [] ∧ ∀ name ∈ looseJob.names, ¬ IsName name := by
  have hloose : ∀ {s}, Loose s → ¬ IsName s := fun h hs => hs.not_loose h
  refine ⟨fun s hs => ?_, by decide +kernel, fun name hname => hloose ?_⟩
  · have hall : ∀ s ∈ ["A\n", "x²", "½"],
        isIdentifier s = true ∧ packageFaults s = [] ∧ Loose s := by decide +kernel
    exact ⟨(hall s hs).1, (hall s hs).2.1, hloose (hall s hs).2.2⟩
  · have hall : ∀ name ∈ looseJob.names, Loose name := by decide +kernel
    exact hall name hname

end EnumHelpers.Job
