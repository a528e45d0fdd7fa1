import EnumHelpers.Proofs.Enum.Tables

/-!
# Proofs — shadowed elements

What is shown of a value is the string form of the last element with the value, and what is read
for a string form is the value of the last element with the form.  So showing a value of an element
and reading the form back goes from the element to two last ones, and ends at a value of the set:
the element's own, unless the element is shadowed.

* `display_of_isLast`, `parse_of_isLast`: showing and reading, each by a last element.
* `parse_display_of_mem`: reading what is shown of the value of an element.
-/

namespace EnumHelpers.EnumSet
open OrderedMap

/-- An element is the last one with a property: it has it, and none after it does. -/
def IsLast (p : Element → Prop) (elements : List Element) (e : Element) : Prop :=
  ∃ before after, elements = before ++ e :: after ∧ p e ∧ ∀ x ∈ after, ¬ p x

variable {typeName : String} {elements : List Element} {p : Element → Prop} [DecidablePred p]

theorem findRev_eq_some_iff {e : Element} :
    (elements.reverse.find? fun e => p e) = some e ↔ IsLast p elements e := by
  rw [List.find?_eq_some_iff_append]
  constructor
  · rintro ⟨he, after, before, h, hafter⟩
    refine ⟨before.reverse, after.reverse, ?_, of_decide_eq_true he, fun x hx => ?_⟩
    · rw [← List.reverse_reverse elements, h]
      simp
    · simpa using hafter x (List.mem_reverse.mp hx)
  · rintro ⟨before, after, rfl, he, hafter⟩
    refine ⟨decide_eq_true he, after.reverse, before.reverse, by simp, fun x hx => ?_⟩
    simpa using hafter x (List.mem_reverse.mp hx)

/-- Where some element has a property there is a last one. -/
theorem exists_isLast {e : Element} (hm : e ∈ elements) (he : p e) :
    ∃ w, IsLast p elements w := by
  cases h : elements.reverse.find? fun e => p e with
  | some w => exact ⟨w, findRev_eq_some_iff.mp h⟩
  | none => exact absurd he (by simpa using List.find?_eq_none.mp h e (List.mem_reverse.mpr hm))

omit [DecidablePred p] in
theorem IsLast.mem {e : Element} (h : IsLast p elements e) : e ∈ elements := by
  obtain ⟨before, after, rfl, -, -⟩ := h
  exact List.mem_append_right _ List.mem_cons_self

omit [DecidablePred p] in
theorem IsLast.holds {e : Element} (h : IsLast p elements e) : p e := by
  obtain ⟨-, -, -, hp, -⟩ := h
  exact hp

theorem get?_valueToString {v : Int} {w : Element} (h : IsLast (·.value = v) elements w) :
    get? v (ofElements typeName elements).valueToString = some w.display := by
  rw [ofElements_eq, get?_filled, findRev_eq_some_iff.mpr h]
  rfl

theorem get?_stringToValue {text : String} {w : Element}
    (h : IsLast (·.display = text) elements w) :
    get? text (ofElements typeName elements).stringToValue = some w.value := by
  rw [ofElements_eq, get?_filled, findRev_eq_some_iff.mpr h]
  rfl

/-- A value is shown as its last element is. -/
theorem display_of_isLast {v : Int} {w : Element} (h : IsLast (·.value = v) elements w) :
    (ofElements typeName elements).display v = .ok w.display := by
  rw [display, get?_valueToString h]

/-- A string form is read as the value of its last element. -/
theorem parse_of_isLast {text : String} {w : Element} (h : IsLast (·.display = text) elements w) :
    (ofElements typeName elements).parse text = .ok w.value := by
  rw [parse, get?_stringToValue h]

/-- The values of the set are those of its elements. -/
theorem isValid_iff {v : Int} :
    (ofElements typeName elements).isValid v = true ↔ ∃ e ∈ elements, e.value = v := by
  constructor
  · intro h
    obtain ⟨text, ht⟩ := Option.isSome_iff_exists.mp h
    obtain ⟨e, he, -, hv, -⟩ := owner_of_mem_valueToString (mem_of_get? ht)
    exact ⟨e, he, hv⟩
  · rintro ⟨e, he, hv⟩
    obtain ⟨w, hw⟩ := exists_isLast (p := (·.value = v)) he hv
    rw [isValid, has, get?_valueToString hw]
    rfl

/-- An element is shadowed when the form its value is shown in is read as another value. -/
theorem mem_shadowed_iff {e w x : Element} (he : e ∈ elements)
    (hw : IsLast (·.value = e.value) elements w) (hx : IsLast (·.display = w.display) elements x) :
    e ∈ (ofElements typeName elements).shadowed ↔ x.value ≠ e.value := by
  rw [shadowed, List.mem_filter, elements_ofElements, isShadowed, get?_valueToString hw]
  simp [get?_stringToValue hx, he]

/-- From the value of an element to the last element with it, and from there to the last one with
its string form. -/
theorem exists_isLast_isLast {e : Element} (he : e ∈ elements) :
    ∃ w x, IsLast (·.value = e.value) elements w ∧ IsLast (·.display = w.display) elements x := by
  obtain ⟨w, hw⟩ := exists_isLast (p := (·.value = e.value)) he rfl
  obtain ⟨x, hx⟩ := exists_isLast (p := (·.display = w.display)) hw.mem rfl
  exact ⟨w, x, hw, hx⟩

/-- **Showing a value and reading it back.**  What is shown of the value of an element is read as a
value of the set, and as its own if and only if the element is not shadowed.  It is shadowed if and
only if, `w` being the last element with its value, the last one with the string form of `w` has
another value.  So every value of the set is read back from what is shown of it if and only if no
element is shadowed. -/
theorem parse_display_of_mem (typeName : String) (elements : List Element) :
    (∀ e ∈ (ofElements typeName elements).elements,
      (∃ text v, (ofElements typeName elements).display e.value = .ok text ∧
        (ofElements typeName elements).parse text = .ok v ∧
        (ofElements typeName elements).isValid v = true ∧
        (v = e.value ↔ e ∉ (ofElements typeName elements).shadowed)) ∧
      ∃ w x, IsLast (·.value = e.value) elements w ∧ IsLast (·.display = w.display) elements x ∧
        (e ∈ (ofElements typeName elements).shadowed ↔ x.value ≠ e.value)) ∧
    ((∀ v, (ofElements typeName elements).isValid v = true →
        ∃ text, (ofElements typeName elements).display v = .ok text ∧
          (ofElements typeName elements).parse text = .ok v) ↔
      (ofElements typeName elements).shadowed = []) := by
  constructor
  · intro e he
    rw [elements_ofElements] at he
    obtain ⟨w, x, hw, hx⟩ := exists_isLast_isLast he
    have hshadowed : e ∈ (ofElements typeName elements).shadowed ↔ x.value ≠ e.value :=
      mem_shadowed_iff he hw hx
    refine ⟨⟨w.display, x.value, display_of_isLast hw, parse_of_isLast hx, ?_, ?_⟩,
      w, x, hw, hx, hshadowed⟩
    · exact isValid_iff.mpr ⟨x, hx.mem, rfl⟩
    · rw [hshadowed, not_not]
  · rw [List.eq_nil_iff_forall_not_mem]
    constructor
    · intro hback e hs
      have he : e ∈ elements := by
        have hm := (List.mem_filter.mp hs).1
        rwa [elements_ofElements] at hm
      obtain ⟨w, x, hw, hx⟩ := exists_isLast_isLast he
      obtain ⟨text, hd, hp⟩ := hback e.value (isValid_iff.mpr ⟨e, he, rfl⟩)
      rw [display_of_isLast hw] at hd
      cases hd
      have hvalue : x.value = e.value := Except.ok.inj ((parse_of_isLast hx).symm.trans hp)
      exact (mem_shadowed_iff he hw hx).mp hs hvalue
    · intro hnone v hv
      obtain ⟨e, he, rfl⟩ := isValid_iff.mp hv
      obtain ⟨w, x, hw, hx⟩ := exists_isLast_isLast he
      have heq : x.value = e.value :=
        not_not.mp (mt (mem_shadowed_iff he hw hx).mpr (hnone e))
      exact ⟨w.display, display_of_isLast hw, heq ▸ parse_of_isLast hx⟩

/-- Elements of which the first two share a value and the last two a string form. -/
def chainElements : List Element := [⟨"A", 1, "x"⟩, ⟨"B", 1, "y"⟩, ⟨"C", 2, "y"⟩]

/-- The value of the first element is shown in the form of the second, which is read as the value
of the third. -/
theorem parse_display_chainElements :
    (ofElements "T" chainElements).display 1 = .ok "y" ∧
      (∃ v, (ofElements "T" chainElements).parse "y" = .ok v ∧ v ≠ 1) ∧
      ⟨"A", 1, "x"⟩ ∈ (ofElements "T" chainElements).shadowed := by
  obtain ⟨⟨text, v, hd, hp, -, hv⟩, -⟩ :=
    (parse_display_of_mem "T" chainElements).1 ⟨"A", 1, "x"⟩ (by decide)
  have hshadowed : ⟨"A", 1, "x"⟩ ∈ (ofElements "T" chainElements).shadowed := by decide
  cases hd
  exact ⟨rfl, ⟨v, hp, fun h => hv.mp h hshadowed⟩, hshadowed⟩

end EnumHelpers.EnumSet
