import EnumHelpers.Proofs.File.Document
import EnumHelpers.Proofs.Json.Limit
import EnumHelpers.Proofs.Settings.Checks

/-!
# Proofs — settings in layers

The defaults, the fields of a settings file and the overrides are three layers.  The value of a key
is the one `chosen` of them, and only the chosen values are checked.

* `load_answers_iff`: loading answers for the chosen values, with the settings that hold them or a
  fault of the settings, unless the text of the file meets an integer that is too long or the first
  value that does not fit is too long to be told.
-/

namespace EnumHelpers.Settings
open OrderedMap File

variable {tree tree' : File.Tree} {file file' : Option String} {text text' : String}
  {fields fields' overrides overrides' base more : OrderedMap String Json}
  {value : String → Option Json}

/-! ### The chosen values -/

/-- The value of a key: that of the overrides unless it is null, else that of the file, else the
default. -/
def chosen (overrides fields : OrderedMap String Json) (key : String) : Option Json :=
  match get? key overrides with
  | some .null | none => (get? key fields).or (get? key (toJson {}))
  | some v => some v

/-- The fields of all layers, the upper ones over the lower ones. -/
def merged (overrides fields : OrderedMap String Json) : OrderedMap String Json :=
  merge (merge (toJson {}) fields) (effective overrides)

theorem get?_merge (h : (keys more).Nodup) (key : String) :
    get? key (merge base more) = (get? key more).or (get? key base) := by
  rw [get?_eq_find?_reverse h]
  exact get?_foldl_put key base more

theorem nodup_keys_merge (h : (keys base).Nodup) : (keys (merge base more)).Nodup :=
  nodup_keys_foldl_put h more

theorem nodup_keys_effective (h : (keys overrides).Nodup) : (keys (effective overrides)).Nodup :=
  h.sublist (List.filter_sublist.map Prod.fst)

theorem get?_effective (h : (keys overrides).Nodup) (key : String) :
    get? key (effective overrides) =
      match get? key overrides with
      | some .null | none => none
      | some v => some v := by
  have hmem : ∀ v, get? key (effective overrides) = some v ↔
      get? key overrides = some v ∧ v ≠ .null := by
    intro v
    rw [← mem_iff_get? (nodup_keys_effective h), ← mem_iff_get? h, effective, List.mem_filter]
    refine and_congr_right fun _ => ?_
    cases v <;> simp
  refine Option.ext fun v => ?_
  rw [hmem]
  cases hget : get? key overrides with
  | none => simp
  | some w =>
      cases w with
      | null => simp [eq_comm]
      | bool | int | float | str | arr | obj =>
          simp only [Option.some_inj]
          refine ⟨And.left, ?_⟩
          rintro rfl
          exact ⟨rfl, nofun⟩

/-- **A merged object reads the chosen values.** -/
theorem get?_merged (hoverrides : (keys overrides).Nodup) (hfields : (keys fields).Nodup) :
    (get? · (merged overrides fields)) = chosen overrides fields := by
  funext key
  rw [merged, get?_merge (nodup_keys_effective hoverrides), get?_merge hfields,
    get?_effective hoverrides, chosen]
  split <;> simp

theorem nodup_keys_merged : (keys (merged overrides fields)).Nodup :=
  nodup_keys_merge (nodup_keys_merge nodup_knownKeys)

/-- Every known key has a chosen value, if only the default. -/
theorem exists_chosen {key : String} (hkey : key ∈ knownKeys)
    (overrides fields : OrderedMap String Json) : ∃ v, chosen overrides fields key = some v := by
  obtain ⟨v, hv⟩ : ∃ v, get? key (toJson {}) = some v := by
    rw [← Option.ne_none_iff_exists', ne_eq, get?_eq_none_iff, not_not]
    exact hkey
  rw [chosen, hv]
  split
  · cases get? key fields <;> exact ⟨_, rfl⟩
  · cases get? key fields <;> exact ⟨_, rfl⟩
  · exact ⟨_, rfl⟩

/-- What is made of an object depends on what it reads. -/
theorem ofFields_congr (h : (keys fields).Nodup) (h' : (keys fields').Nodup)
    (hget : ∀ key, get? key fields = get? key fields') : ofFields fields = ofFields fields' := by
  have hfield : ∀ key, Json.field key fields = Json.field key fields' := by
    intro key
    rw [Json.field, Json.field, hget]
  have hunknown : unknownKeys fields = unknownKeys fields' :=
    sortTexts_of_perm ((perm_keys h h' hget).filter _)
  simp only [ofFields, truthField, textField, optionalTextField, hfield, hunknown]

/-! ### The answer -/

/-- All keys are known and their values fit. -/
def AllFit (value : String → Option Json) : Prop := ∀ key v, value key = some v → Fits key v

/-- All keys are known, and the first value that does not fit is too long to be told. -/
def Untold (value : String → Option Json) : Prop :=
  (∀ key v, value key = some v → key ∈ knownKeys) ∧
    ∃ key ∈ misfit? value checkedKeys, ∃ v ∈ value key, v.TooLong

/-- What the values of the keys ask for: the settings that hold them, if all of them fit, and
otherwise a fault of the settings. -/
def Answers (value : String → Option Json) (outcome : Except Failure Settings) : Prop :=
  (AllFit value ∧ ∃ s, outcome = .ok s ∧ Holds value s) ∨
    (¬ AllFit value ∧ ∃ fault, outcome = .error (.settings fault))

theorem misfit?_eq_none_of_allFit (h : AllFit value) (row : List String) :
    misfit? value row = none := by
  refine List.find?_eq_none.mpr fun key _ => ?_
  simpa using fun v hv => h key v hv

theorem allFit_iff : AllFit value ↔
    (∀ key v, value key = some v → key ∈ knownKeys) ∧ misfit? value checkedKeys = none := by
  refine ⟨fun h => ⟨fun key v hv => (h key v hv).known, misfit?_eq_none_of_allFit h _⟩, ?_⟩
  rintro ⟨hknown, hnone⟩ key v hv
  have hkey := List.find?_eq_none.mp hnone key (mem_checkedKeys_iff.mpr (hknown key v hv))
  simpa [hv] using hkey

theorem Untold.not_allFit (h : Untold value) : ¬ AllFit value := by
  obtain ⟨-, key, hkey, -⟩ := h
  intro hfit
  rw [misfit?_eq_none_of_allFit hfit] at hkey
  cases hkey

/-- The outcomes of checking a complete object. -/
theorem ofFields_cases (h : Complete fields) :
    (AllFit (get? · fields) ∧ ∃ s, ofFields fields = .ok s) ∨
    (¬ AllFit (get? · fields) ∧ ¬ Untold (get? · fields) ∧
      ∃ fault, ofFields fields = .error (.settings fault)) ∨
    (Untold (get? · fields) ∧ ∃ fault, ofFields fields = .error (.number fault)) := by
  have hkeys : (∀ key v, get? key fields = some v → key ∈ knownKeys) ↔
      ∀ key ∈ keys fields, key ∈ knownKeys := by
    refine forall_congr' fun key => ?_
    rw [← not_not (a := key ∈ keys fields), ← get?_eq_none_iff, ← ne_eq, Option.ne_none_iff_exists',
      forall_exists_index]
  -- unknown keys are told first, in a message that shows no value
  by_cases hknown : ∀ key ∈ keys fields, key ∈ knownKeys
  · obtain ⟨hpasses, hrefuses⟩ := row_ofFields h hknown
    cases hmisfit : misfit? (get? · fields) checkedKeys with
    | none => exact .inl ⟨allFit_iff.mpr ⟨hkeys.mpr hknown, hmisfit⟩, hpasses hmisfit⟩
    | some key =>
        have hunfit : ¬ AllFit (get? · fields) := fun hfit =>
          absurd (hmisfit.symm.trans (allFit_iff.mp hfit).2) nofun
        obtain ⟨v, hv, -⟩ := exists_of_misfit? hmisfit
        have hrefused := hrefuses key hmisfit v hv
        by_cases hlong : v.TooLong
        · exact .inr (.inr ⟨⟨hkeys.mpr hknown, key, hmisfit, v, hv, hlong⟩, hrefused.long hlong⟩)
        · refine .inr (.inl ⟨hunfit, ?_, hrefused.told hlong⟩)
          rintro ⟨-, key', hkey', w, hw, hlong'⟩
          cases hmisfit.symm.trans hkey'
          cases hv.symm.trans hw
          exact hlong hlong'
  · have hunknown : ¬ unknownKeys fields = [] := mt unknownKeys_eq_nil_iff.mp hknown
    refine .inr (.inl ⟨fun hfit => hknown (hkeys.mp (allFit_iff.mp hfit).1),
      fun huntold => hknown (hkeys.mp huntold.1), .unknownKeys (unknownKeys fields), ?_⟩)
    rw [ofFields, if_pos (by simpa using hunknown)]

/-! ### Files -/

/-- The document of a settings file: the text that a tree has there, and the fields of the object
that it spells, however many digits an integer has.  Where no file is named, there are none. -/
inductive FileHolds (tree : File.Tree) :
    Option String → String → OrderedMap String Json → Prop where
  | none : FileHolds tree none "" []
  | unnamed : FileHolds tree (some "") "" []
  | named {name text : String} {fields : OrderedMap String Json} (given : name ≠ "")
      (json : Text.lower (Path.ofString name).suffix = ".json")
      (read : tree.read (Path.ofString name) = .ok (Text.glyphsOfBytes (Text.utf8 text)))
      (spells : Json.read text none = .ok (.obj fields)) : FileHolds tree (some name) text fields

theorem FileHolds.nodup (h : FileHolds tree file text fields) : (keys fields).Nodup := by
  cases h with
  | none | unnamed => exact List.nodup_nil
  | named _ _ _ spells => exact Json.nodup_of_read spells

theorem not_meetsLong_empty : ¬ Json.MeetsLong "" := by
  intro h
  obtain ⟨cause, hread⟩ := Json.read_integer_iff.mpr h
  cases hread

/-- The fields of a settings file are read, unless its text meets an integer that is too long. -/
theorem FileHolds.cases (h : FileHolds tree file text fields) :
    (¬ Json.MeetsLong text ∧ fileFields tree file = .ok fields) ∨
    (Json.MeetsLong text ∧ ∃ fault, fileFields tree file = .error (.number fault)) := by
  cases h with
  | none => exact .inl ⟨not_meetsLong_empty, rfl⟩
  | unnamed => exact .inl ⟨not_meetsLong_empty, rfl⟩
  | named given json read spells =>
      rw [fileFields, if_neg given, readSettings_of_json read json, held_utf8]
      rcases Json.read_of_unlimited spells with ⟨hshort, hread⟩ | ⟨hlong, cause, hread⟩
      · rw [hread]
        exact .inl ⟨hshort, rfl⟩
      · rw [hread]
        exact .inr ⟨hlong, cause, rfl⟩

/-- Where nothing of the file is too long, settings are made of the merged object. -/
theorem load_eq (h : FileHolds tree file text fields) (hshort : ¬ Json.MeetsLong text) :
    load tree overrides file = ofFields (merged overrides fields) := by
  rcases h.cases with ⟨-, hread⟩ | ⟨hlong, -⟩
  · rw [load, hread, ok_bind, merged]
  · exact absurd hlong hshort

/-! ### Loading -/

theorem complete_merged (hoverrides : (keys overrides).Nodup) (hfields : (keys fields).Nodup) :
    Complete (merged overrides fields) := by
  intro key hkey
  obtain ⟨v, hv⟩ := exists_chosen hkey overrides fields
  exact ⟨v, (congrFun (get?_merged hoverrides hfields) key).trans hv⟩

/-- The settings loaded are those that hold the chosen values. -/
theorem load_eq_ok_iff (h : FileHolds tree file text fields) (hshort : ¬ Json.MeetsLong text)
    (hoverrides : (keys overrides).Nodup) {s : Settings} :
    load tree overrides file = .ok s ↔ Holds (chosen overrides fields) s := by
  rw [load_eq h hshort, ofFields_eq_ok_iff (complete_merged hoverrides h.nodup),
    get?_merged hoverrides h.nodup]

/-- Loading answers, or it fails for a number. -/
theorem load_cases (h : FileHolds tree file text fields) (hoverrides : (keys overrides).Nodup) :
    (¬ (Json.MeetsLong text ∨ Untold (chosen overrides fields)) ∧
      Answers (chosen overrides fields) (load tree overrides file)) ∨
    ((Json.MeetsLong text ∨ Untold (chosen overrides fields)) ∧
      ∃ fault, load tree overrides file = .error (.number fault)) := by
  rcases h.cases with ⟨hshort, -⟩ | ⟨hlong, fault, hread⟩
  · have hcases := ofFields_cases (complete_merged hoverrides h.nodup)
    rw [get?_merged hoverrides h.nodup, ← load_eq h hshort] at hcases
    rcases hcases with ⟨hfit, s, hload⟩ | ⟨hunfit, htold, hload⟩ | ⟨huntold, hload⟩
    · have hholds := (load_eq_ok_iff h hshort hoverrides).mp hload
      exact .inl ⟨not_or.mpr ⟨hshort, fun huntold => huntold.not_allFit hfit⟩,
        .inl ⟨hfit, s, hload, hholds⟩⟩
    · exact .inl ⟨not_or.mpr ⟨hshort, htold⟩, .inr ⟨hunfit, hload⟩⟩
    · exact .inr ⟨.inr huntold, hload⟩
  · refine .inr ⟨.inl hlong, fault, ?_⟩
    rw [load, hread]
    rfl

theorem not_answers_number {fault : Number.Fault} : ¬ Answers value (.error (.number fault)) := by
  rintro (⟨-, -, ⟨⟩, -⟩ | ⟨-, -, ⟨⟩⟩)

/-- Loading depends on the chosen values alone. -/
theorem load_congr (h : FileHolds tree file text fields) (h' : FileHolds tree' file' text' fields')
    (hshort : ¬ Json.MeetsLong text) (hshort' : ¬ Json.MeetsLong text')
    (hoverrides : (keys overrides).Nodup) (hoverrides' : (keys overrides').Nodup)
    (hchosen : chosen overrides fields = chosen overrides' fields') :
    load tree overrides file = load tree' overrides' file' := by
  rw [load_eq h hshort, load_eq h' hshort']
  refine ofFields_congr nodup_keys_merged nodup_keys_merged fun key => ?_
  rw [← get?_merged hoverrides h.nodup, ← get?_merged hoverrides' h'.nodup] at hchosen
  exact congrFun hchosen key

/-- A null override counts no more than none. -/
theorem effective_filter {key : String} (h : get? key overrides = some .null)
    (hoverrides : (keys overrides).Nodup) :
    effective (overrides.filter fun entry => entry.1 ≠ key) = effective overrides := by
  rw [effective, effective, List.filter_filter]
  refine List.filter_congr fun entry hentry => ?_
  by_cases hkey : entry.1 = key
  · obtain ⟨name, v⟩ := entry
    subst hkey
    cases h.symm.trans (get?_of_mem hoverrides hentry)
    rfl
  · simp [hkey]

/-- **Loading answers for the chosen values**, unless the text of the file meets an integer that is
too long, or the first value that does not fit is too long to be told; then it fails for a number.
The settings loaded are those that hold the chosen values, and nothing else of the file and the
overrides matters; a null override least of all. -/
theorem load_answers_iff (hfile : FileHolds tree file text fields)
    (hoverrides : (keys overrides).Nodup) :
    (Answers (chosen overrides fields) (load tree overrides file) ↔
      ¬ (Json.MeetsLong text ∨ Untold (chosen overrides fields))) ∧
    (Json.MeetsLong text ∨ Untold (chosen overrides fields) →
      ∃ fault, load tree overrides file = .error (.number fault)) ∧
    (¬ Json.MeetsLong text → ∀ s, load tree overrides file = .ok s ↔
      Holds (chosen overrides fields) s) ∧
    (∀ {tree' file' text' fields' overrides'}, FileHolds tree' file' text' fields' →
      (keys overrides').Nodup → ¬ Json.MeetsLong text → ¬ Json.MeetsLong text' →
      chosen overrides fields = chosen overrides' fields' →
      load tree overrides file = load tree' overrides' file') ∧
    (∀ key, get? key overrides = some .null →
      load tree (overrides.filter fun entry => entry.1 ≠ key) file =
        load tree overrides file) := by
  refine ⟨?_, ?_, fun hshort s => load_eq_ok_iff hfile hshort hoverrides,
    fun hfile' hoverrides' hshort hshort' => load_congr hfile hfile' hshort hshort' hoverrides
      hoverrides', fun key hkey => ?_⟩
  · rcases load_cases hfile hoverrides with ⟨hnot, hanswers⟩ | ⟨h, fault, hload⟩
    · exact iff_of_true hanswers hnot
    · exact iff_of_false (hload ▸ not_answers_number) (not_not_intro h)
  · rcases load_cases hfile hoverrides with ⟨hnot, -⟩ | ⟨-, hload⟩
    · exact fun h => absurd h hnot
    · exact fun _ => hload
  · rw [load, load, effective_filter hkey hoverrides]

/-! ### Layers that are loaded, and others that are not -/

theorem fileFields_of_integer {fault : Number.Fault}
    (h : Json.read text = .error (.integer fault)) :
    fileFields (holding (Text.utf8 text)) (some "c.json") = .error (.number fault) := by
  rw [fileFields, if_neg (by decide), ← heldPath, readSettings_of_json (read_holding _)
    suffix_heldPath, held_utf8, h]
  rfl

theorem fileHolds_of_read (h : Json.read text none = .ok (.obj fields)) :
    FileHolds (holding (Text.utf8 text)) (some "c.json") text fields :=
  .named (by decide) suffix_heldPath (read_holding _) h

/-- Fields of a file of which one has a value that does not fit. -/
def mixedFields : OrderedMap String Json :=
  [("bitmask", .str "yes"), ("type_names", .str " A,, B ")]

/-- Overrides of which one is null. -/
def mixedOverrides : OrderedMap String Json := [("bitmask", .bool true), ("sql", .null)]

/-- A value that does not fit is overridden, and a null overrides nothing. -/
theorem load_answers_iff_mixed :
    (FileHolds (holding (Text.utf8 (Json.compact (.obj mixedFields)))) (some "c.json")
        (Json.compact (.obj mixedFields)) mixedFields ∧ (keys mixedOverrides).Nodup) ∧
    load (holding (Text.utf8 (Json.compact (.obj mixedFields)))) mixedOverrides (some "c.json") =
      .ok { typeNames := ["A", "B"], bitmask := true } := by
  have hnumberless : Json.Numberless (.obj mixedFields) := by
    refine .obj (by decide) ?_
    rw [mixedFields]
    simp only [List.forall_mem_cons]
    exact ⟨.str _, .str _, List.forall_mem_nil _⟩
  have hfile := fileHolds_of_read (Json.read_write hnumberless none none)
  have hshort : ¬ Json.MeetsLong (Json.compact (.obj mixedFields)) := by
    rw [← Json.read_integer_iff]
    rintro ⟨cause, hread⟩
    cases (Json.read_write hnumberless none _).symm.trans hread
  have hoverrides : (keys mixedOverrides).Nodup := by decide
  obtain ⟨-, -, hload, -, -⟩ := load_answers_iff hfile hoverrides
  refine ⟨⟨hfile, hoverrides⟩, (hload hshort _).mpr ?_⟩
  rw [← get?_merged hoverrides hfile.nodup,
    ← ofFields_eq_ok_iff (complete_merged hoverrides hfile.nodup), ofFields_eq_ok_iff_checks]
  exact ⟨unknownKeys_eq_nil_iff.mpr (by decide), rfl, rfl, rfl, rfl, rfl, rfl, rfl, rfl, rfl, rfl⟩

/-- Figures of which there is one more than the limit. -/
def longFigures : List Char := List.replicate (Number.digitLimit + 1) '1'

/-- The least integer that is too long to be told. -/
def leastLong : Int := Nat.pow 10 Number.digitLimit

/-- The text of a settings file with the figures in it. -/
def longText : String := Json.integerObject "bitmask" longFigures

theorem read_longText : Json.read longText = .error (.integer (.tooManyDigits 4301)) ∧
    ∃ n, Json.read longText none = .ok (.obj [("bitmask", .int n)]) := by
  have hwhole : Json.Whole longFigures := whole_ones (Nat.succ_pos _)
  have hlength : longFigures.length = 4301 := List.length_replicate
  rw [longText, Json.read_integerObject hwhole, Json.read_integerObject hwhole, Json.integerAt,
    Json.integerAt, hlength]
  exact ⟨rfl, _, rfl⟩

theorem shown_leastLong : Failure.shown (.int leastLong) = .error (.number .tooLongToWrite) := by
  have hlong : ¬ leastLong.natAbs < Nat.pow 10 Number.digitLimit := by
    rw [leastLong, Int.natAbs_natCast]
    exact Nat.lt_irrefl _
  rw [Failure.shown, Json.shown, Number.integerText, if_neg hlong]
  rfl

/-- An integer is no truth value, and a failure to tell it is the failure of loading. -/
theorem load_integer {n : Int} {cause : Failure} (h : Failure.shown (.int n) = .error cause) :
    load {} [("bitmask", .int n)] none = .error cause := by
  have hknown : unknownKeys (merged [("bitmask", .int n)] []) = [] :=
    unknownKeys_eq_nil_iff.mpr fun _ => id
  have hbitmask : truthField "bitmask" (merged [("bitmask", .int n)] []) = .error cause := by
    rw [truthField, field_eq (v := .int n) rfl]
    dsimp only
    rw [h]
    rfl
  rw [load, fileFields, ok_bind, ← merged, ofFields, hknown, if_neg (by decide), hbitmask]
  rfl

/-- The defaults fit, and a truth value beside them. -/
theorem allFit_bitmask (n : Int) :
    AllFit (chosen [("bitmask", .bool true)] [("bitmask", .int n)]) := by
  have hdefaults : ∀ entry ∈ toJson {}, Fits entry.1 entry.2 := by decide
  intro key v hv
  by_cases hkey : "bitmask" = key
  · subst hkey
    cases hv
    decide
  · have hdefault : chosen [("bitmask", .bool true)] [("bitmask", .int n)] key =
        get? key (toJson {}) := by
      simp [chosen, get?, hkey]
    exact hdefaults (key, v) (mem_of_get? (hdefault ▸ hv))

/-- **A value that does not fit is not harmless when it is overridden**, as its digits may be too
many to be read; and a value that does not fit is no fault of the settings, when its digits are too
many to be told. -/
theorem long_integers_not_answered :
    (∃ fields, FileHolds (holding (Text.utf8 longText)) (some "c.json") longText fields ∧
      AllFit (chosen [("bitmask", .bool true)] fields) ∧
      load (holding (Text.utf8 longText)) [("bitmask", .bool true)] (some "c.json") =
        .error (.number (.tooManyDigits 4301))) ∧
    ¬ AllFit (chosen [("bitmask", .int leastLong)] []) ∧
    load {} [("bitmask", .int leastLong)] none = .error (.number .tooLongToWrite) := by
  obtain ⟨hlimited, n, hread⟩ := read_longText
  refine ⟨⟨_, fileHolds_of_read hread, allFit_bitmask n, ?_⟩, fun h => ?_,
    load_integer shown_leastLong⟩
  · rw [load, fileFields_of_integer hlimited]
    rfl
  · exact h "bitmask" (.int leastLong) rfl

end EnumHelpers.Settings
