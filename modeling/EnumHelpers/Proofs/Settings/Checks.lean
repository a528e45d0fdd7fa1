import EnumHelpers.Proofs.Json.Shown
import EnumHelpers.Proofs.Settings.Command

/-!
# Proofs — which fields are settings

An object of fields is checked key by key.  It holds settings when all its keys are known and the
value of each one fits.  Otherwise the first check that fails refuses a value, and tells the value
in its message; a value too long to be told is no fault of the settings any more.

* `ofFields_eq_ok_iff`: the settings that an object holds.
* `row_ofFields`: an object with known keys is refused at the first value that does not fit.
-/

namespace EnumHelpers.Settings
open OrderedMap

variable {α β : Type} {fields : OrderedMap String Json} {key : String} {v : Json} {s : Settings}

/-! ### Values that fit -/

/-- The keys of truth values. -/
def truthKeys : List String := ["format_output", "line_comment", "bitmask", "json", "yaml", "sql"]

/-- The keys of texts. -/
def textKeys : List String := ["directory", "trim_prefix"]

/-- The known keys in the order in which their values are checked. -/
def checkedKeys : List String := truthKeys ++ textKeys ++ ["output", "type_names"]

/-- Whether a value is a text. -/
def isText : Json → Bool
  | .str _ => true
  | _ => false

/-- The values that fit a key; an unknown key has none. -/
def Fits (key : String) : Json → Prop
  | .bool _ => key ∈ truthKeys
  | .str _ => key ∈ textKeys ++ ["output", "type_names"]
  | .null => key = "output"
  | .arr items => key = "type_names" ∧ ∀ v ∈ items, isText v = true
  | _ => False

instance (key : String) : DecidablePred (Fits key)
  | .bool _ => inferInstanceAs (Decidable (_ ∈ _))
  | .str _ => inferInstanceAs (Decidable (_ ∈ _))
  | .null => inferInstanceAs (Decidable (_ = _))
  | .arr _ => inferInstanceAs (Decidable (_ ∧ _))
  | .int _ | .float _ | .obj _ => inferInstanceAs (Decidable False)

theorem mem_checkedKeys_iff : key ∈ checkedKeys ↔ key ∈ knownKeys := by
  have hall : (∀ key ∈ checkedKeys, key ∈ knownKeys) ∧ ∀ key ∈ knownKeys, key ∈ checkedKeys := by
    decide
  exact ⟨hall.1 key, hall.2 key⟩

theorem Fits.known (h : Fits key v) : key ∈ knownKeys := by
  rw [← mem_checkedKeys_iff, checkedKeys, List.append_assoc]
  cases v with
  | bool => exact List.mem_append_left _ h
  | str => exact List.mem_append_right _ h
  | null =>
      cases h
      decide
  | arr =>
      cases h.1
      decide
  | int | float | obj => exact h.elim

theorem fits_truthKey (hkey : key ∈ truthKeys) : Fits key v ↔ ∃ b, v = .bool b := by
  have hother : ∀ key ∈ truthKeys, key ∉ textKeys ++ ["output", "type_names"] ∧
      key ≠ "output" ∧ key ≠ "type_names" := by decide
  obtain ⟨htext, houtput, hnames⟩ := hother key hkey
  cases v <;> simp [Fits, hkey, htext, houtput, hnames]

theorem fits_textKey (hkey : key ∈ textKeys) : Fits key v ↔ ∃ s, v = .str s := by
  have hother : ∀ key ∈ textKeys, key ∉ truthKeys ∧ key ≠ "output" ∧ key ≠ "type_names" := by
    decide
  obtain ⟨htruth, houtput, hnames⟩ := hother key hkey
  cases v <;> simp [Fits, hkey, htruth, houtput, hnames]

theorem fits_output : Fits "output" v ↔ v = .null ∨ ∃ s, v = .str s := by
  cases v <;> simp [Fits, truthKeys]

theorem fits_typeNames :
    Fits "type_names" v ↔ (∃ s, v = .str s) ∨ ∃ items, v = .arr items ∧ ∀ v ∈ items, isText v := by
  cases v <;> simp [Fits, truthKeys]

/-- The texts that a value lists: the items of a list, or what stands between the commas of a
text. -/
inductive Lists : Json → List String → Prop where
  | items (texts : List String) : Lists (.arr (texts.map .str)) texts
  | parts {texts : List String} (ne_nil : texts ≠ []) (whole : ∀ text ∈ texts, ',' ∉ text.toList) :
      Lists (.str (String.intercalate "," texts)) texts

theorem texts?_eq_some_iff {items : List Json} {texts : List String} :
    texts? items = some texts ↔ items = texts.map .str := by
  refine ⟨fun h => ?_, ?_⟩
  · induction items generalizing texts with
    | nil =>
        cases h
        rfl
    | cons v rest ih =>
        cases v with
        | str s =>
            obtain ⟨texts, hrest, rfl⟩ := Option.map_eq_some_iff.mp h
            rw [ih hrest, List.map_cons]
        | null | bool | int | float | arr | obj => cases h
  · rintro rfl
    exact texts?_map_str texts

theorem exists_texts_iff {items : List Json} :
    (∃ texts : List String, items = texts.map .str) ↔ ∀ v ∈ items, isText v = true := by
  constructor
  · rintro ⟨texts, rfl⟩ v hv
    obtain ⟨text, -, rfl⟩ := List.mem_map.mp hv
    rfl
  · intro h
    induction items with
    | nil => exact ⟨[], rfl⟩
    | cons v rest ih =>
        rw [List.forall_mem_cons] at h
        obtain ⟨texts, rfl⟩ := ih h.2
        cases v with
        | str s => exact ⟨s :: texts, rfl⟩
        | null | bool | int | float | arr | obj => cases h.1

/-- Every text lists what stands between its commas. -/
theorem lists_splitAtChar (text : String) :
    Lists (.str text) ((Text.splitAtChar ',' text.toList).map String.ofList) := by
  obtain ⟨first, rest, hsplit, htext⟩ := Text.exists_splitAtChar_eq_cons ',' text.toList
  have hwhole : text = String.intercalate "," ((first :: rest).map String.ofList) := by
    rw [← String.toList_inj, htext, List.map_cons, Text.intercalate_cons_eq_join,
      String.toList_append, String.toList_join, String.toList_ofList]
    simp [List.flatMap_map]
  have hparts : Lists (.str (String.intercalate "," ((first :: rest).map String.ofList)))
      ((first :: rest).map String.ofList) := by
    refine .parts (List.cons_ne_nil _ _) fun part hpart => ?_
    obtain ⟨cs, hcs, rfl⟩ := List.mem_map.mp hpart
    rw [String.toList_ofList]
    exact Text.notMem_of_mem_splitAtChar (hsplit ▸ hcs)
  rw [hsplit]
  rwa [← hwhole] at hparts

theorem splitNames_eq (text : String) : splitNames text =
    (((Text.splitAtChar ',' text.toList).map String.ofList).map Text.trim).filter (· ≠ "") := by
  simp [splitNames, Text.trim, Function.comp_def]

/-- **Type names are the listed texts**, without blanks around them and without empty ones. -/
theorem typeNamesOf_eq_ok_iff {names : List String} : typeNamesOf v = .ok names ↔
    ∃ texts, Lists v texts ∧ names = (texts.map Text.trim).filter (· ≠ "") := by
  constructor
  · intro h
    rw [typeNamesOf.eq_def] at h
    split at h
    · cases h
      exact ⟨_, lists_splitAtChar _, splitNames_eq _⟩
    · split at h
      · rename_i texts htexts
        cases h
        rw [texts?_eq_some_iff.mp htexts]
        exact ⟨texts, .items texts, rfl⟩
      · exact absurd h bind_error_ne_ok
    · exact absurd h bind_error_ne_ok
  · rintro ⟨texts, hlists, rfl⟩
    cases hlists with
    | items => rw [typeNamesOf, texts?_map_str]
    | parts hne hwhole =>
        have htexts : ∀ texts : List String,
            (texts.map String.toList).map String.ofList = texts := by
          simp [Function.comp_def]
        rw [typeNamesOf, splitNames_eq, splitAtChar_joined hne hwhole, htexts]

/-! ### Settings that are held -/

/-- The value of every key but `type_names` is that of the settings, and the type names are the
texts that the value there lists, without blanks around them and without empty ones. -/
structure Holds (value : String → Option Json) (s : Settings) : Prop where
  field : ∀ key, key ≠ "type_names" → value key = get? key s.toJson
  typeNames : ∃ v texts, value "type_names" = some v ∧ Lists v texts ∧
    s.typeNames = (texts.map Text.trim).filter (· ≠ "")

theorem unknownKeys_eq_nil_iff :
    unknownKeys fields = [] ↔ ∀ key ∈ keys fields, key ∈ knownKeys := by
  rw [unknownKeys, sortTexts, ← List.length_eq_zero_iff, List.length_mergeSort,
    List.length_eq_zero_iff, List.filter_eq_nil_iff]
  simp

theorem field_eq (h : get? key fields = some v) : Json.field key fields = v := by
  rw [Json.field, h, Option.getD_some]

section
variable (hv : get? key fields = some v)
include hv

theorem truthField_eq_ok_iff {b : Bool} : truthField key fields = .ok b ↔ v = .bool b := by
  rw [truthField, field_eq hv]
  cases v with
  | bool => exact ⟨fun h => congrArg _ (Except.ok.inj h), fun h => congrArg _ (Json.bool.inj h)⟩
  | null | int | float | str | arr | obj => exact ⟨fun h => absurd h bind_error_ne_ok, nofun⟩

theorem textField_eq_ok_iff {text : String} : textField key fields = .ok text ↔ v = .str text := by
  rw [textField, field_eq hv]
  cases v with
  | str => exact ⟨fun h => congrArg _ (Except.ok.inj h), fun h => congrArg _ (Json.str.inj h)⟩
  | null | bool | int | float | arr | obj => exact ⟨fun h => absurd h bind_error_ne_ok, nofun⟩

theorem optionalTextField_eq_ok_iff {output : Option String} :
    optionalTextField key fields = .ok output ↔ v = output.elim .null .str := by
  have htext : ∀ {x : Except Failure String}, x = textField key fields →
      (x.map some = .ok output ↔ ∃ text, v = .str text ∧ some text = output) := by
    rintro x rfl
    simp only [map_eq_ok, textField_eq_ok_iff hv]
  rw [optionalTextField.eq_def, field_eq hv]
  split
  · cases output with
    | none => exact ⟨fun _ => rfl, fun _ => rfl⟩
    | some text => exact ⟨nofun, nofun⟩
  · rename_i hnull
    rw [htext rfl]
    cases output with
    | none => exact ⟨nofun, fun h => absurd h hnull⟩
    | some text => simp

end

/-- An object with a value at every known key. -/
def Complete (fields : OrderedMap String Json) : Prop :=
  ∀ key ∈ knownKeys, ∃ v, get? key fields = some v

theorem ofFields_eq_ok_iff_checks : ofFields fields = .ok s ↔ unknownKeys fields = [] ∧
    truthField "format_output" fields = .ok s.formatOutput ∧
    truthField "line_comment" fields = .ok s.lineComment ∧
    truthField "bitmask" fields = .ok s.bitmask ∧ truthField "json" fields = .ok s.json ∧
    truthField "yaml" fields = .ok s.yaml ∧ truthField "sql" fields = .ok s.sql ∧
    textField "directory" fields = .ok s.directory ∧
    textField "trim_prefix" fields = .ok s.trimPrefix ∧
    optionalTextField "output" fields = .ok s.output ∧
    typeNamesOf (Json.field "type_names" fields) = .ok s.typeNames := by
  constructor
  · intro h
    rw [ofFields] at h
    split at h
    · cases h
    · rename_i hknown
      obtain ⟨_, hformat, h⟩ := bind_eq_ok.mp h
      obtain ⟨_, hcomment, h⟩ := bind_eq_ok.mp h
      obtain ⟨_, hbitmask, h⟩ := bind_eq_ok.mp h
      obtain ⟨_, hjson, h⟩ := bind_eq_ok.mp h
      obtain ⟨_, hyaml, h⟩ := bind_eq_ok.mp h
      obtain ⟨_, hsql, h⟩ := bind_eq_ok.mp h
      obtain ⟨_, hdirectory, h⟩ := bind_eq_ok.mp h
      obtain ⟨_, hprefix, h⟩ := bind_eq_ok.mp h
      obtain ⟨_, houtput, h⟩ := bind_eq_ok.mp h
      obtain ⟨_, hnames, h⟩ := bind_eq_ok.mp h
      cases h
      exact ⟨by simpa using hknown, hformat, hcomment, hbitmask, hjson, hyaml, hsql, hdirectory,
        hprefix, houtput, hnames⟩
  · rintro ⟨hknown, hformat, hcomment, hbitmask, hjson, hyaml, hsql, hdirectory, hprefix, houtput,
      hnames⟩
    rw [ofFields, hknown, if_neg (by decide)]
    simp only [hformat, hcomment, hbitmask, hjson, hyaml, hsql, hdirectory, hprefix, houtput,
      hnames, ok_bind]

/-- An object has the fields of settings, type names apart, if it has no unknown keys and the nine
known ones have their values. -/
theorem get?_eq_toJson_iff : (∀ key, key ≠ "type_names" → get? key fields = get? key s.toJson) ↔
    (∀ key ∈ keys fields, key ∈ knownKeys) ∧
    get? "format_output" fields = some (.bool s.formatOutput) ∧
    get? "line_comment" fields = some (.bool s.lineComment) ∧
    get? "bitmask" fields = some (.bool s.bitmask) ∧ get? "json" fields = some (.bool s.json) ∧
    get? "yaml" fields = some (.bool s.yaml) ∧ get? "sql" fields = some (.bool s.sql) ∧
    get? "directory" fields = some (.str s.directory) ∧
    get? "trim_prefix" fields = some (.str s.trimPrefix) ∧
    get? "output" fields = some (s.output.elim .null .str) := by
  have hnone : ∀ key, key ∉ knownKeys → get? key s.toJson = none := fun key hkey =>
    get?_eq_none_iff.mpr (keys_toJson s ▸ hkey)
  have houtput : get? "output" s.toJson = some (s.output.elim .null .str) := by
    cases houtput : s.output <;> simp [toJson, get?, houtput]
  constructor
  · intro h
    refine ⟨fun key hkey => ?_, h "format_output" (by decide), h "line_comment" (by decide),
      h "bitmask" (by decide), h "json" (by decide), h "yaml" (by decide), h "sql" (by decide),
      h "directory" (by decide), h "trim_prefix" (by decide),
      (h "output" (by decide)).trans houtput⟩
    by_contra hunknown
    have hne : key ≠ "type_names" := by
      rintro rfl
      exact hunknown (by decide)
    exact get?_eq_none_iff.mp ((h key hne).trans (hnone key hunknown)) hkey
  · rintro ⟨hknown, hformat, hcomment, hbitmask, hjson, hyaml, hsql, hdirectory, hprefix, houtput'⟩
      key hne
    by_cases hkey : key ∈ knownKeys
    · simp only [knownKeys, toJson, List.map_cons, List.map_nil, List.mem_cons, List.not_mem_nil,
        or_false, hne, false_or] at hkey
      rcases hkey with rfl | rfl | rfl | rfl | rfl | rfl | rfl | rfl | rfl
      · rw [houtput', houtput]
      · exact hdirectory
      · exact hformat
      · exact hprefix
      · exact hcomment
      · exact hbitmask
      · exact hjson
      · exact hyaml
      · exact hsql
    · rw [hnone key hkey, get?_eq_none_iff]
      exact fun hmem => hkey (hknown key hmem)

/-- **The settings that a complete object holds.** -/
theorem ofFields_eq_ok_iff (h : Complete fields) :
    ofFields fields = .ok s ↔ Holds (get? · fields) s := by
  have htruth : ∀ key ∈ knownKeys, ∀ b : Bool,
      truthField key fields = .ok b ↔ get? key fields = some (.bool b) := by
    intro key hkey b
    obtain ⟨v, hv⟩ := h key hkey
    rw [truthField_eq_ok_iff hv, hv, Option.some_inj]
  have htext : ∀ key ∈ knownKeys, ∀ text : String,
      textField key fields = .ok text ↔ get? key fields = some (.str text) := by
    intro key hkey text
    obtain ⟨v, hv⟩ := h key hkey
    rw [textField_eq_ok_iff hv, hv, Option.some_inj]
  have houtput : optionalTextField "output" fields = .ok s.output ↔
      get? "output" fields = some (s.output.elim .null .str) := by
    obtain ⟨v, hv⟩ := h "output" (by decide)
    rw [optionalTextField_eq_ok_iff hv, hv, Option.some_inj]
  have hnames : typeNamesOf (Json.field "type_names" fields) = .ok s.typeNames ↔
      ∃ v texts, get? "type_names" fields = some v ∧ Lists v texts ∧
        s.typeNames = (texts.map Text.trim).filter (· ≠ "") := by
    obtain ⟨v, hv⟩ := h "type_names" (by decide)
    rw [field_eq hv, typeNamesOf_eq_ok_iff, hv]
    simp
  have hholds : Holds (get? · fields) s ↔
      (∀ key, key ≠ "type_names" → get? key fields = get? key s.toJson) ∧
        ∃ v texts, get? "type_names" fields = some v ∧ Lists v texts ∧
          s.typeNames = (texts.map Text.trim).filter (· ≠ "") :=
    ⟨fun h => ⟨h.field, h.typeNames⟩, fun h => ⟨h.1, h.2⟩⟩
  rw [ofFields_eq_ok_iff_checks, hholds, hnames, houtput, unknownKeys_eq_nil_iff,
    get?_eq_toJson_iff, htruth "format_output" (by decide), htruth "line_comment" (by decide),
    htruth "bitmask" (by decide), htruth "json" (by decide), htruth "yaml" (by decide),
    htruth "sql" (by decide), htext "directory" (by decide), htext "trim_prefix" (by decide)]
  simp only [and_assoc]

/-! ### Values that are refused -/

/-- A value is refused: with a fault of the settings that tells it, or with a fault of numbers if it
is too long to be told. -/
structure Refused (v : Json) (x : Except Failure α) : Prop where
  told : ¬ v.TooLong → ∃ fault, x = .error (.settings fault)
  long : v.TooLong → ∃ fault, x = .error (.number fault)

theorem refused_shown (f : String → SettingsFault) (v : Json) :
    Refused v (Failure.shown v >>= fun s => (.error (.settings (f s)) : Except Failure α)) := by
  rcases Failure.shown_cases v with ⟨hshort, s, hs⟩ | ⟨hlong, fault, hs⟩
  · rw [hs]
    exact ⟨fun _ => ⟨_, rfl⟩, fun h => absurd h hshort⟩
  · rw [hs]
    exact ⟨fun h => absurd hlong h, fun _ => ⟨_, rfl⟩⟩

theorem Refused.bind {x : Except Failure α} (h : Refused v x) (f : α → Except Failure β) :
    Refused v (x >>= f) := by
  refine ⟨fun hshort => ?_, fun hlong => ?_⟩
  · obtain ⟨fault, rfl⟩ := h.told hshort
    exact ⟨fault, rfl⟩
  · obtain ⟨fault, rfl⟩ := h.long hlong
    exact ⟨fault, rfl⟩

/-- The check of the value at a key: it passes where the value fits, and refuses it elsewhere. -/
structure Checks (key : String) (v : Json) (x : Except Failure α) : Prop where
  passes : Fits key v → ∃ a, x = .ok a
  refuses : ¬ Fits key v → Refused v x

section
variable (hv : get? key fields = some v)
include hv

theorem checks_truthField (hkey : key ∈ truthKeys) : Checks key v (truthField key fields) := by
  rw [truthField, field_eq hv]
  have hfits : Fits key v ↔ _ := fits_truthKey hkey
  cases v with
  | bool b => exact ⟨fun _ => ⟨b, rfl⟩, fun h => absurd (hfits.mpr ⟨b, rfl⟩) h⟩
  | null | int | float | str | arr | obj =>
      exact ⟨fun h => (hfits.mp h).elim nofun, fun _ => refused_shown _ _⟩

theorem refused_textField (h : ∀ s, v ≠ .str s) : Refused v (textField key fields) := by
  rw [textField, field_eq hv]
  cases v with
  | str s => exact absurd rfl (h s)
  | null | bool | int | float | arr | obj => exact refused_shown _ _

theorem checks_textField (hkey : key ∈ textKeys) : Checks key v (textField key fields) := by
  have hfits : Fits key v ↔ _ := fits_textKey hkey
  refine ⟨fun h => ?_, fun h => refused_textField hv fun s hs => h (hfits.mpr ⟨s, hs⟩)⟩
  obtain ⟨s, hs⟩ := hfits.mp h
  exact ⟨s, (textField_eq_ok_iff hv).mpr hs⟩

theorem checks_optionalTextField (hkey : key = "output") :
    Checks key v (optionalTextField key fields) := by
  subst hkey
  refine ⟨fun h => ?_, fun h => ?_⟩
  · rcases fits_output.mp h with rfl | ⟨s, rfl⟩
    · exact ⟨none, (optionalTextField_eq_ok_iff hv).mpr rfl⟩
    · exact ⟨some s, (optionalTextField_eq_ok_iff hv).mpr rfl⟩
  · rw [fits_output, not_or, not_exists] at h
    have hrefused := (refused_textField hv h.2).bind fun s => .ok (some s)
    rw [optionalTextField.eq_def, field_eq hv]
    split
    · exact absurd rfl h.1
    · exact hrefused

end

theorem checks_typeNamesOf : Checks "type_names" v (typeNamesOf v) := by
  refine ⟨fun h => ?_, fun h => ?_⟩
  · rcases fits_typeNames.mp h with ⟨s, rfl⟩ | ⟨items, rfl, hitems⟩
    · exact ⟨_, typeNamesOf_eq_ok_iff.mpr ⟨_, lists_splitAtChar s, rfl⟩⟩
    · obtain ⟨texts, rfl⟩ := exists_texts_iff.mpr hitems
      exact ⟨_, typeNamesOf_eq_ok_iff.mpr ⟨texts, .items texts, rfl⟩⟩
  · rw [typeNamesOf.eq_def]
    split
    · exact absurd (fits_typeNames.mpr (.inl ⟨_, rfl⟩)) h
    · split
      · rename_i texts htexts
        refine absurd (fits_typeNames.mpr (.inr ⟨_, rfl, ?_⟩)) h
        exact exists_texts_iff.mp ⟨texts, texts?_eq_some_iff.mp htexts⟩
      · exact refused_shown _ _
    · exact refused_shown _ _

/-! ### One check after another -/

/-- The first of some keys whose value does not fit. -/
def misfit? (value : String → Option Json) (row : List String) : Option String :=
  row.find? fun key => decide (∃ v ∈ value key, ¬ Fits key v)

theorem exists_of_misfit? {value : String → Option Json} {row : List String}
    (h : misfit? value row = some key) : ∃ v ∈ value key, ¬ Fits key v := by
  rw [misfit?] at h
  simpa using List.find?_some h

/-- What comes of checking a row of keys: an outcome if all the values fit, and otherwise the first
one that does not is refused. -/
structure Row (value : String → Option Json) (row : List String) (x : Except Failure α) :
    Prop where
  passes : misfit? value row = none → ∃ a, x = .ok a
  refuses : ∀ key ∈ misfit? value row, ∀ v ∈ value key, Refused v x

variable {value : String → Option Json} {row : List String}

theorem Row.nil (a : α) : Row value [] (.ok a) where
  passes _ := ⟨a, rfl⟩
  refuses := nofun

/-- A check before a row. -/
theorem Row.cons {x : Except Failure α} {f : α → Except Failure β} (hv : value key = some v)
    (hx : Checks key v x) (hf : ∀ a, Row value row (f a)) : Row value (key :: row) (x >>= f) := by
  by_cases hfits : Fits key v
  · have hmisfit : misfit? value (key :: row) = misfit? value row :=
      List.find?_cons_of_neg (by simp [hv, hfits])
    obtain ⟨a, rfl⟩ := hx.passes hfits
    rw [ok_bind]
    exact ⟨fun h => (hf a).passes (hmisfit ▸ h),
      fun key hkey => (hf a).refuses key (hmisfit ▸ hkey)⟩
  · have hmisfit : misfit? value (key :: row) = some key :=
      List.find?_cons_of_pos (by simp [hv, hfits])
    refine ⟨fun h => absurd (hmisfit.symm.trans h) nofun, fun first hfirst w hw => ?_⟩
    cases hmisfit.symm.trans hfirst
    cases hv.symm.trans hw
    exact (hx.refuses hfits).bind f

/-- **An object with known keys is refused at the first value that does not fit**, and holds
settings if there is none. -/
theorem row_ofFields (h : Complete fields) (hknown : ∀ key ∈ keys fields, key ∈ knownKeys) :
    Row (get? · fields) checkedKeys (ofFields fields) := by
  have hcons : ∀ {γ} {key row} {x : Except Failure γ} {f : γ → Except Failure Settings},
      key ∈ knownKeys → (∀ v, get? key fields = some v → Checks key v x) →
      (∀ a, Row (get? · fields) row (f a)) → Row (get? · fields) (key :: row) (x >>= f) := by
    intro γ key row x f hkey hx hf
    obtain ⟨v, hv⟩ := h key hkey
    exact Row.cons hv (hx v hv) hf
  rw [ofFields, unknownKeys_eq_nil_iff.mpr hknown, if_neg (by decide)]
  refine hcons (by decide) (fun v hv => checks_truthField hv (by decide)) fun formatOutput => ?_
  refine hcons (by decide) (fun v hv => checks_truthField hv (by decide)) fun lineComment => ?_
  refine hcons (by decide) (fun v hv => checks_truthField hv (by decide)) fun bitmask => ?_
  refine hcons (by decide) (fun v hv => checks_truthField hv (by decide)) fun json => ?_
  refine hcons (by decide) (fun v hv => checks_truthField hv (by decide)) fun yaml => ?_
  refine hcons (by decide) (fun v hv => checks_truthField hv (by decide)) fun sql => ?_
  refine hcons (by decide) (fun v hv => checks_textField hv (by decide)) fun directory => ?_
  refine hcons (by decide) (fun v hv => checks_textField hv (by decide)) fun trimPrefix => ?_
  refine hcons (by decide) (fun v hv => checks_optionalTextField hv rfl) fun output => ?_
  exact hcons (by decide) (fun v hv => field_eq hv ▸ checks_typeNamesOf) fun typeNames => .nil _

end EnumHelpers.Settings
