import EnumHelpers.Proofs.Emission.Naming
import EnumHelpers.Proofs.Enum.Trimming

/-!
# Proofs — values that no element has

Such a value is shown as the name of the type with the value in brackets, its *fallback*, and what
is read are the forms of elements.  The two meet where a comment gives an element a form that is the
fallback of another value.  Names have no brackets, so without comments they do not meet.

* `readsBack_iff`: which values are shown in a form that is read.
* `readsBack_iff_isValid`: where these are the values of the elements.
-/

namespace EnumHelpers

namespace Emission
open Text

/-- A character of no word is in a name only as a line feed. -/
theorem notMem_of_isIdentifier {name : String} (h : isIdentifier name = true) {c : Char}
    (hc : isWordChar c = false) (hbreak : c ≠ '\n') : c ∉ name.toList := by
  obtain ⟨word, hword, -, rfl | rfl⟩ := exists_word_of_isIdentifier h
  · exact hword.notMem hc
  · rw [String.toList_append, List.mem_append, not_or]
    exact ⟨hword.notMem hc, fun hmem => hbreak (List.mem_singleton.mp hmem)⟩

end Emission

namespace EnumSet
open Emission Enum

variable {typeName text : String} {elements : List Element} {v : Int}

/-- The form in which a value of a type is shown when no element has it.  A value that is too long
to be written has none. -/
def IsFallback (typeName : String) (v : Int) (text : String) : Prop :=
  ∃ n, Number.integerText v = .ok n ∧ text = typeName ++ "(" ++ n ++ ")"

/-- A value is shown in a form that is read, be it as this value or as another one. -/
def ReadsBack (s : EnumSet) (v : Int) : Prop :=
  ∃ text u, s.display v = .ok text ∧ s.parse text = .ok u

/-- What is read are the forms of the elements. -/
theorem exists_parse_iff :
    (∃ u, (ofElements typeName elements).parse text = .ok u) ↔
      ∃ e ∈ elements, e.display = text := by
  constructor
  · rintro ⟨u, hu⟩
    rw [parse] at hu
    split at hu
    · rename_i hget
      obtain ⟨e, he, -, -, hd⟩ := owner_of_mem_stringToValue (OrderedMap.mem_of_get? hget)
      exact ⟨e, he, hd⟩
    · cases hu
  · rintro ⟨e, he, hd⟩
    obtain ⟨w, hw⟩ := exists_isLast (p := (·.display = text)) he hd
    exact ⟨w.value, parse_of_isLast hw⟩

/-- A value that no element has is shown in its fallback. -/
theorem display_eq_ok_iff (hv : (ofElements typeName elements).isValid v = false) :
    (ofElements typeName elements).display v = .ok text ↔ IsFallback typeName v text := by
  have hnone : OrderedMap.get? v (ofElements typeName elements).valueToString = none := by
    simpa [isValid, OrderedMap.has] using hv
  rw [display, hnone, typeName_ofElements]
  simp only [bind_eq_ok, mapError_eq_ok, IsFallback]
  constructor
  · rintro ⟨n, hn, h⟩
    exact ⟨n, hn, (Except.ok.inj h).symm⟩
  · rintro ⟨n, hn, rfl⟩
    exact ⟨n, hn, rfl⟩

/-- **Which values are shown in a form that is read**: those of the elements, and those whose
fallback is the form of an element. -/
theorem readsBack_iff : (ofElements typeName elements).ReadsBack v ↔
    (ofElements typeName elements).isValid v = true ∨
      ∃ e ∈ elements, IsFallback typeName v e.display := by
  cases hv : (ofElements typeName elements).isValid v with
  | true =>
      obtain ⟨e, he, rfl⟩ := isValid_iff.mp hv
      obtain ⟨w, x, hw, hx⟩ := exists_isLast_isLast he
      simp only [true_or, iff_true]
      exact ⟨w.display, x.value, display_of_isLast hw, parse_of_isLast hx⟩
  | false =>
      simp only [Bool.false_eq_true, false_or]
      constructor
      · rintro ⟨text, u, hd, hp⟩
        obtain ⟨e, he, rfl⟩ := exists_parse_iff.mp ⟨u, hp⟩
        exact ⟨e, he, (display_eq_ok_iff hv).mp hd⟩
      · rintro ⟨e, he, hf⟩
        obtain ⟨u, hp⟩ := exists_parse_iff.mpr ⟨e, he, rfl⟩
        exact ⟨e.display, u, (display_eq_ok_iff hv).mpr hf, hp⟩

/-- A name without a prefix is no fallback. -/
theorem not_isFallback_dropPrefix {name : String} (hname : isIdentifier name = true) (p : String) :
    ¬ IsFallback typeName v (dropPrefix p name) := by
  rintro ⟨n, -, h⟩
  refine notMem_of_isIdentifier hname (c := '(') (by decide) (by decide) ?_
  have hmem : '(' ∈ (dropPrefix p name).toList := by
    rw [h]
    simp
  exact (dropPrefix_isSuffix p name).subset hmem

/-- **Showing a value and reading what is shown.**  A value is shown in a form that is read if and
only if an element has it, unless no element does and its fallback is the form of an element.  Then
it is read as the value of the last element with the form, which is another one.  Of elements that
are resolved without comments, under names that are passed as names, none has such a form. -/
theorem readsBack_iff_isValid (typeName : String) (elements : List Element) :
    (∀ v, ((ofElements typeName elements).ReadsBack v ↔
        (ofElements typeName elements).isValid v = true) ↔
      ¬ ((ofElements typeName elements).isValid v = false ∧
        ∃ e ∈ elements, IsFallback typeName v e.display)) ∧
    (∀ v w, (ofElements typeName elements).isValid v = false → IsFallback typeName v w.display →
      IsLast (·.display = w.display) elements w →
      (ofElements typeName elements).display v = .ok w.display ∧
        (ofElements typeName elements).parse w.display = .ok w.value ∧ w.value ≠ v) ∧
    ∀ t p members, resolve t ⟨typeName, p, false⟩ = .ok members →
      elementsOf members = .ok elements → (∀ e ∈ elements, isIdentifier e.name = true) →
      ∀ v, (ofElements typeName elements).ReadsBack v ↔
        (ofElements typeName elements).isValid v = true := by
  refine ⟨fun v => ?_, fun v w hv hf hw => ?_, fun t p members hr he hnames v => ?_⟩
  · rw [readsBack_iff, or_iff_left_iff_imp, ← Bool.not_eq_true, and_comm, not_and_not_right]
  · refine ⟨(display_eq_ok_iff hv).mpr hf, parse_of_isLast hw, ?_⟩
    rintro rfl
    rw [isValid_iff.mpr ⟨w, hw.mem, rfl⟩] at hv
    cases hv
  · rw [readsBack_iff, or_iff_left_iff_imp]
    rintro ⟨e, hmem, hf⟩
    rw [display_of_mem_elements hr rfl he e hmem] at hf
    exact absurd hf (not_isFallback_dropPrefix (hnames e hmem) p)

/-- The value 9 of the compass is not read back, as no constant has it. -/
theorem readsBack_iff_isValid_compassTable :
    resolve compassTable ⟨"T", "", false⟩ =
      .ok [⟨.str "DirNorth", 1, .str "DirNorth"⟩, ⟨.str "North", 2, .str "North"⟩,
        ⟨.str "DirDirEast", 3, .str "DirDirEast"⟩] ∧
    ¬ (ofElements "T" [⟨"DirNorth", 1, "DirNorth"⟩, ⟨"North", 2, "North"⟩,
      ⟨"DirDirEast", 3, "DirDirEast"⟩]).ReadsBack 9 := by
  have hr := resolve_compassTable ""
  refine ⟨hr, fun h => ?_⟩
  have hvalid := ((readsBack_iff_isValid "T" _).2.2 compassTable "" _ hr rfl
    (by decide +kernel) 9).mp h
  revert hvalid
  decide

/-- A form that a comment gives to an element may be the fallback of a value that no element has. -/
theorem fallback_read_as_member :
    (ofElements "T" [⟨"A", 1, "T(5)"⟩]).isValid 5 = false ∧
    (ofElements "T" [⟨"A", 1, "T(5)"⟩]).display 5 = .ok "T(5)" ∧
    (ofElements "T" [⟨"A", 1, "T(5)"⟩]).parse "T(5)" = .ok 1 ∧
    ¬ ((ofElements "T" [⟨"A", 1, "T(5)"⟩]).ReadsBack 5 ↔
      (ofElements "T" [⟨"A", 1, "T(5)"⟩]).isValid 5 = true) := by
  have hdisplay : (ofElements "T" [⟨"A", 1, "T(5)"⟩]).display 5 = .ok "T(5)" := by
    rw [display_eq_ok_iff (by decide)]
    have hshort : (5 : Int).natAbs < Nat.pow 10 Number.digitLimit := by decide +kernel
    exact ⟨"5", if_pos hshort, rfl⟩
  refine ⟨by decide, hdisplay, rfl, fun h => ?_⟩
  have hvalid := h.mp ⟨"T(5)", 1, hdisplay, rfl⟩
  revert hvalid
  decide

end EnumSet
end EnumHelpers
