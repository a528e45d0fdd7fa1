import EnumHelpers.Enum.Element
import EnumHelpers.Proofs.OrderedMap

/-!
# Proofs — lookup tables of a type

Each of the four maps of an `EnumSet` is the map filled from the elements in their order, keyed by
value or by string form.  The last element with a key gives both the entry and its owner, so the
name that owns an entry is the name of an element with the entry's value.

* `owner_of_mem_valueToString`, `owner_of_mem_stringToValue`: the entry of a key is that of the last
  element with it, and the owner is its name.
-/

namespace EnumHelpers.EnumSet
open OrderedMap

variable {typeName : String} {elements : List Element}

theorem foldl_enter (s : EnumSet) (es : List Element) :
    es.foldl enter s =
      { s with
        valueToString := es.foldl (fun m e => put e.value e.display m) s.valueToString
        stringToValue := es.foldl (fun m e => put e.display e.value m) s.stringToValue
        valueOwner := es.foldl (fun m e => put e.value e.name m) s.valueOwner
        stringOwner := es.foldl (fun m e => put e.display e.name m) s.stringOwner } := by
  induction es generalizing s with
  | nil => rfl
  | cons e rest ih => rw [List.foldl_cons, ih]; rfl

/-- The four maps of the set of the elements of a type are filled from them in order. -/
theorem ofElements_eq (typeName : String) (elements : List Element) :
    ofElements typeName elements =
      { typeName, elements
        valueToString := filled Element.value Element.display elements
        stringToValue := filled Element.display Element.value elements
        valueOwner := filled Element.value Element.name elements
        stringOwner := filled Element.display Element.name elements } :=
  foldl_enter _ _

@[simp] theorem typeName_ofElements : (ofElements typeName elements).typeName = typeName := by
  rw [ofElements_eq]

@[simp] theorem elements_ofElements : (ofElements typeName elements).elements = elements := by
  rw [ofElements_eq]

theorem nodup_values_of_valueToString :
    (keys (ofElements typeName elements).valueToString).Nodup := by
  rw [ofElements_eq]; exact keys_filled_nodup elements

theorem nodup_texts_of_stringToValue :
    (keys (ofElements typeName elements).stringToValue).Nodup := by
  rw [ofElements_eq]; exact keys_filled_nodup elements

/-- The last of the elements with a property is one of them and has it. -/
theorem of_findRev {p : Element → Bool} {e : Element} (h : elements.reverse.find? p = some e) :
    e ∈ elements ∧ p e = true :=
  ⟨List.mem_reverse.mp (List.mem_of_find?_eq_some h), List.find?_some h⟩

/-- The entry of a value is owned by an element that has the value. -/
theorem owner_of_mem_valueToString {v : Int} {text : String}
    (h : (v, text) ∈ (ofElements typeName elements).valueToString) :
    ∃ e ∈ elements, get? v (ofElements typeName elements).valueOwner = some e.name ∧
      e.value = v ∧ e.display = text := by
  rw [ofElements_eq] at h ⊢
  obtain ⟨e, he, rfl⟩ := mem_filled_iff.mp h
  obtain ⟨hmem, hv⟩ := of_findRev he
  exact ⟨e, hmem, by rw [get?_filled, he]; rfl, by simpa using hv, rfl⟩

/-- The entry of a string form is owned by an element that has the form and the entry's value. -/
theorem owner_of_mem_stringToValue {v : Int} {text : String}
    (h : (text, v) ∈ (ofElements typeName elements).stringToValue) :
    ∃ e ∈ elements, get? text (ofElements typeName elements).stringOwner = some e.name ∧
      e.value = v ∧ e.display = text := by
  rw [ofElements_eq] at h ⊢
  obtain ⟨e, he, rfl⟩ := mem_filled_iff.mp h
  obtain ⟨hmem, hd⟩ := of_findRev he
  exact ⟨e, hmem, by rw [get?_filled, he]; rfl, rfl, by simpa using hd⟩

end EnumHelpers.EnumSet
