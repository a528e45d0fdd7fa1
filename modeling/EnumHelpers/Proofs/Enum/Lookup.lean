import EnumHelpers.Proofs.Enum.Shadowing

/-!
# Proofs — what the lookup tables hold

Elements are tabulated by a key when the keys stand in the order of the first elements with them,
and what stands at a key is taken from the last element with it (`Tabulates`).  So of elements that
share a key the first one gives the place and the last one the entry, whatever stands between them.
Each of the four maps of an `EnumSet` tabulates its elements, by value or by string form, and the
two maps by one key have their keys in common, in one order.

* `tabulates_filled`: filling a map from elements tabulates them.
* `tabulates_ofElements`: the four maps, the elements and the values of the set of a type.
-/

namespace EnumHelpers.EnumSet
open OrderedMap

variable {α β : Type} [DecidableEq α]

/-- A map tabulates elements: a key stands where it stands first among the elements, with the entry
of the last element that has it. -/
structure Tabulates (key : Element → α) (entry : Element → β) (elements : List Element)
    (m : OrderedMap α β) : Prop where
  keys_eq : keys m = (elements.map key).eraseDups
  mem_keys : ∀ k, k ∈ keys m ↔ ∃ e ∈ elements, key e = k
  mem_iff : ∀ k v, (k, v) ∈ m ↔ ∃ w, IsLast (key · = k) elements w ∧ entry w = v
  get?_eq : ∀ k v, get? k m = some v ↔ ∃ w, IsLast (key · = k) elements w ∧ entry w = v

theorem get?_filled_eq_some {key : Element → α} {entry : Element → β} {elements : List Element}
    (k : α) (v : β) :
    get? k (filled key entry elements) = some v ↔
      ∃ w, IsLast (key · = k) elements w ∧ entry w = v := by
  rw [get?_filled, Option.map_eq_some_iff]
  exact exists_congr fun w => and_congr_left fun _ => findRev_eq_some_iff

theorem tabulates_filled (key : Element → α) (entry : Element → β) (elements : List Element) :
    Tabulates key entry elements (filled key entry elements) where
  keys_eq := keys_filled elements
  mem_keys k := by rw [keys_filled, List.mem_eraseDups, List.mem_map]
  mem_iff k v := by rw [mem_iff_get? (keys_filled_nodup elements), get?_filled_eq_some]
  get?_eq := get?_filled_eq_some

/-- **The tables of a type.**  The set of the elements of a type keeps the elements and their values
in order.  Its four maps tabulate the elements: the string form and the name of the owner by value,
the value and the name of the owner by string form; each map of owners has the keys of its partner
in their order.  The values of the elements, and no others, are valid. -/
theorem tabulates_ofElements (typeName : String) (elements : List Element) :
    (ofElements typeName elements).elements = elements ∧
      (ofElements typeName elements).values = elements.map Element.value ∧
      Tabulates Element.value Element.display elements
        (ofElements typeName elements).valueToString ∧
      Tabulates Element.value Element.name elements (ofElements typeName elements).valueOwner ∧
      Tabulates Element.display Element.value elements
        (ofElements typeName elements).stringToValue ∧
      Tabulates Element.display Element.name elements
        (ofElements typeName elements).stringOwner ∧
      keys (ofElements typeName elements).valueOwner =
        keys (ofElements typeName elements).valueToString ∧
      keys (ofElements typeName elements).stringOwner =
        keys (ofElements typeName elements).stringToValue ∧
      ∀ v, (ofElements typeName elements).isValid v = true ↔ ∃ e ∈ elements, e.value = v := by
  have hvalid : ∀ v, (ofElements typeName elements).isValid v = true ↔
      ∃ e ∈ elements, e.value = v := fun _ => isValid_iff
  rw [ofElements_eq] at hvalid ⊢
  exact ⟨rfl, rfl, tabulates_filled _ _ elements, tabulates_filled _ _ elements,
    tabulates_filled _ _ elements, tabulates_filled _ _ elements,
    (keys_filled elements).trans (keys_filled elements).symm,
    (keys_filled elements).trans (keys_filled elements).symm, hvalid⟩

example : (ofElements "T" [⟨"A", 1, "x"⟩, ⟨"B", 2, "y"⟩, ⟨"C", 1, "y"⟩]).valueToString =
    [(1, "y"), (2, "y")] := by decide

end EnumHelpers.EnumSet
