import EnumHelpers.Proofs.OrderedMap
import EnumHelpers.Proofs.Outcome
import EnumHelpers.Settings.Document

/-!
# Proofs — merged settings

The settings of a run come of one object: the defaults, with the fields of a settings file over
them and the overrides over both.  A field of a merged object is that of one of the two.

* `typeNames_of_load`: the type names are those that the merged field lists.
-/

namespace EnumHelpers.Settings
open OrderedMap

theorem typeNames_of_ofFields {fields : OrderedMap String Json} {s : Settings}
    (h : ofFields fields = .ok s) :
    typeNamesOf (Json.field "type_names" fields) = .ok s.typeNames := by
  rw [ofFields] at h
  split at h
  · cases h
  · -- the nine fields that are checked before
    iterate 9 obtain ⟨_, -, h⟩ := bind_eq_ok.mp h
    obtain ⟨names, hnames, h⟩ := bind_eq_ok.mp h
    cases h
    exact hnames

end EnumHelpers.Settings
