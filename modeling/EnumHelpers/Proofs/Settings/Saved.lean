import EnumHelpers.Proofs.File.Path
import EnumHelpers.Proofs.File.Tree
import EnumHelpers.Proofs.Json.ReadBack
import EnumHelpers.Proofs.Settings.Document

/-!
# Proofs — saved settings

Settings that have been loaded are saved to a file and loaded from it again.  What is written is a
document without numbers and with distinct keys, so it is read back; its fields are all that
settings have, so nothing of the defaults is left; and each field is of its kind.  The type names
are trimmed once more on the way, which changes nothing, since the type names of loaded settings
have been trimmed (`Trimmed`).

* `load_of_save`: the settings come back, unless the file is named by a suffix alone.
-/

namespace EnumHelpers.Settings
open OrderedMap File

/-! ### Type names -/

/-- Names without blanks around them, none of them empty. -/
def Trimmed (names : List String) : Prop := ∀ name ∈ names, Text.trim name = name ∧ name ≠ ""

theorem trim_trim (s : String) : Text.trim (Text.trim s) = Text.trim s := by
  rw [Text.trim, Text.trim, String.toList_ofList, Text.trimChars_trimChars]

theorem trimmed_filter {names : List String} (h : ∀ name ∈ names, Text.trim name = name) :
    Trimmed (names.filter (· ≠ "")) := by
  intro name hname
  rw [List.mem_filter, decide_eq_true_iff] at hname
  exact ⟨h name hname.1, hname.2⟩

/-- The type names that a field lists are trimmed. -/
theorem trimmed_of_typeNamesOf {v : Json} {names : List String} (h : typeNamesOf v = .ok names) :
    Trimmed names := by
  rw [typeNamesOf.eq_def] at h
  split at h
  · cases h
    refine trimmed_filter fun name hname => ?_
    obtain ⟨cs, -, rfl⟩ := List.mem_map.mp hname
    rw [Text.trim, String.toList_ofList, Text.trimChars_trimChars]
  · split at h
    · cases h
      refine trimmed_filter fun name hname => ?_
      obtain ⟨name, -, rfl⟩ := List.mem_map.mp hname
      exact trim_trim name
    · exact absurd h bind_error_ne_ok
  · exact absurd h bind_error_ne_ok

theorem texts?_map_str (names : List String) : texts? (names.map .str) = some names := by
  induction names with
  | nil => rfl
  | cons name rest ih => rw [List.map_cons, texts?, ih, Option.map_some]

/-- Trimmed type names are listed as they are. -/
theorem typeNamesOf_map_str {names : List String} (h : Trimmed names) :
    typeNamesOf (.arr (names.map .str)) = .ok names := by
  have htrim : names.map Text.trim = names :=
    (List.map_congr_left fun name hname => (h name hname).1).trans (List.map_id names)
  have hkept : names.filter (· ≠ "") = names :=
    List.filter_eq_self.mpr fun name hname => decide_eq_true (h name hname).2
  rw [typeNamesOf, texts?_map_str]
  dsimp only
  rw [htrim, hkept]

/-! ### Fields -/

/-- The fields of settings are those that settings have. -/
theorem keys_toJson (s : Settings) : keys s.toJson = knownKeys := rfl

theorem nodup_knownKeys : knownKeys.Nodup := by decide

theorem unknownKeys_toJson (s : Settings) : unknownKeys s.toJson = [] := by
  have hnone : knownKeys.filter (fun key => !knownKeys.contains key) = [] := by decide
  rw [unknownKeys, keys_toJson, hnone, sortTexts, List.mergeSort_nil]

theorem numberless_toJson (s : Settings) : Json.Numberless (.obj s.toJson) := by
  refine .obj (keys_toJson s ▸ nodup_knownKeys) ?_
  have hnames : Json.Numberless (.arr (s.typeNames.map .str)) := by
    refine .arr fun v hv => ?_
    obtain ⟨name, -, rfl⟩ := List.mem_map.mp hv
    exact .str name
  rw [toJson]
  simp only [List.forall_mem_cons]
  refine ⟨hnames, ?_, .str _, .bool _, .str _, .bool _, .bool _, .bool _, .bool _, .bool _,
    List.forall_mem_nil _⟩
  cases s.output with
  | none => exact .null
  | some name => exact .str name

/-- **Settings are held by their fields**, when their type names are trimmed. -/
theorem ofFields_toJson {s : Settings} (h : Trimmed s.typeNames) : ofFields s.toJson = .ok s := by
  have htruth : truthField "format_output" s.toJson = .ok s.formatOutput ∧
      truthField "line_comment" s.toJson = .ok s.lineComment ∧
      truthField "bitmask" s.toJson = .ok s.bitmask ∧ truthField "json" s.toJson = .ok s.json ∧
      truthField "yaml" s.toJson = .ok s.yaml ∧ truthField "sql" s.toJson = .ok s.sql :=
    ⟨rfl, rfl, rfl, rfl, rfl, rfl⟩
  have htext : textField "directory" s.toJson = .ok s.directory ∧
      textField "trim_prefix" s.toJson = .ok s.trimPrefix := ⟨rfl, rfl⟩
  have houtput : optionalTextField "output" s.toJson = .ok s.output := by
    obtain ⟨_, output⟩ := s
    cases output <;> rfl
  have hnames : typeNamesOf (Json.field "type_names" s.toJson) = .ok s.typeNames :=
    typeNamesOf_map_str h
  rw [ofFields, unknownKeys_toJson, if_neg (by decide)]
  simp only [htruth, htext, houtput, hnames, ok_bind]

/-- The fields of settings replace all the defaults. -/
theorem merge_toJson (s : Settings) : merge (toJson {}) s.toJson = s.toJson := rfl

/-! ### Files -/

variable {tree tree' : File.Tree} {s : Settings} {path : Path}

/-- Settings that are saved stand in a file at the path. -/
theorem find_of_save (h : save tree s path = .ok tree') :
    ∃ steps, tree'.find path = .ok (steps, .file (Text.glyphsOfText s.saved)) := by
  rw [save] at h
  split at h
  · rename_i after hwrite
    cases h
    obtain ⟨steps, -, hfind⟩ := Tree.find_of_write hwrite
    exact ⟨steps, hfind⟩
  · cases h
  · cases h

/-- The fields of saved settings are read back, if the suffix of the file is that of a document. -/
theorem readFile_of_save (h : save tree s path = .ok tree') :
    readFile tree' path =
      if Text.lower path.suffix ≠ ".json" then .error (.settings (.fileNotNamedJson path.text))
      else .ok s.toJson := by
  obtain ⟨steps, hfind⟩ := find_of_save h
  have hthere : tree'.exists? path = true := by rw [Tree.exists?, hfind]
  have hread : tree'.read path = .ok (Text.glyphsOfText s.saved) := by rw [Tree.read, hfind]
  have htext : Text.textOfGlyphs (Text.glyphsOfText s.saved) = some s.saved := by
    rw [Text.glyphsOfText, Text.textOfGlyphs_map, String.ofList_toList]
  have hdocument : Json.read s.saved = .ok (.obj s.toJson) :=
    Json.read_write (numberless_toJson s) _ _
  rw [readFile, hthere, if_neg (by decide), hread]
  simp only [htext, hdocument]

/-! ### Saving and loading -/

/-- Where a file is named and nothing is overridden, the settings come of the file alone. -/
theorem load_of_file {name : String} (hname : name ≠ "") (tree : File.Tree) :
    load tree [] (some name) =
      (readFile tree (Path.ofString name)).bind fun fields => ofFields (merge (toJson {}) fields) := by
  rw [load, fileFields, if_neg hname]
  rfl

theorem trimmed_of_load {overrides : OrderedMap String Json} {file : Option String}
    (h : load tree overrides file = .ok s) : Trimmed s.typeNames := by
  rw [load] at h
  obtain ⟨fields, -, h⟩ := bind_eq_ok.mp h
  exact trimmed_of_typeNamesOf (typeNames_of_ofFields h)

/-- A path that ends in `.json` has that for its suffix, unless it is all of the file's name. -/
theorem suffix_of_json {name : String} (h : ".json".toList <:+ name.toList) :
    (Path.ofString name).suffix = if (Path.ofString name).name = ".json" then "" else ".json" := by
  obtain ⟨front, hfront⟩ := h
  obtain ⟨stem, hstem⟩ := Path.name_ofString (show '/' ∉ ".json".toList by decide) (by decide)
    (by decide) front
  rw [hfront, String.ofList_toList] at hstem
  have hsuffix : (Path.ofString name).suffix =
      String.ofList (if stem = [] then [] else ".json".toList) := by
    rw [Path.suffix, hstem, String.toList_ofList]
    exact congrArg String.ofList
      (Path.suffixOf_append (show "json".toList ≠ [] by decide) (by decide) stem)
  rw [hsuffix, hstem]
  by_cases hnil : stem = []
  · rw [if_pos hnil, if_pos (by rw [hnil, List.nil_append, String.ofList_toList]), String.ofList_nil]
  · rw [if_neg hnil, if_neg, String.ofList_toList]
    intro hall
    have hlist := congrArg String.toList hall
    rw [String.toList_ofList] at hlist
    exact hnil (List.append_left_eq_self.mp hlist)

/-- **Saved settings are loaded again.**  Settings that have been loaded, and are then saved to a
path that ends in `.json`, are loaded from there as they were; but when that is all of the file's
name, the path has no suffix and the file is refused. -/
theorem load_of_save {before : File.Tree} {overrides : OrderedMap String Json}
    {file : Option String} {name : String} (hload : load before overrides file = .ok s)
    (hname : ".json".toList <:+ name.toList)
    (hsave : save tree s (Path.ofString name) = .ok tree') :
    load tree' [] (some name) =
      if (Path.ofString name).name = ".json" then
        .error (.settings (.fileNotNamedJson (Path.ofString name).text))
      else .ok s := by
  have hgiven : name ≠ "" := by
    rintro rfl
    exact absurd hname (by decide)
  have hlower : Text.lower "" ≠ ".json" ∧ Text.lower ".json" = ".json" := by decide
  rw [load_of_file hgiven, readFile_of_save hsave, suffix_of_json hname]
  by_cases hall : (Path.ofString name).name = ".json"
  · rw [if_pos hall, if_pos hall, if_pos hlower.1]
    rfl
  · rw [if_neg hall, if_neg hall, if_neg (not_not_intro hlower.2)]
    exact (congrArg ofFields (merge_toJson s)).trans (ofFields_toJson (trimmed_of_load hload))

/-- Overrides with a comma and blanks in a type name, and a text that is mostly escapes. -/
def markedOverrides : OrderedMap String Json := [
  ("type_names", .arr [.str " A,B\t", .str " "]),
  ("trim_prefix", .str "\"\\\n\x01é\u2028"),
  ("output", .null),
  ("json", .bool true)]

/-- The settings that the overrides give. -/
def markedSettings : Settings where
  typeNames := ["A,B"]
  trimPrefix := "\"\\\n\x01é\u2028"
  json := true

theorem load_markedOverrides : load {} markedOverrides none = .ok markedSettings := by
  have hknown : unknownKeys (merge (merge (toJson {}) []) (effective markedOverrides)) = [] := by
    rw [unknownKeys, sortTexts, List.filter_eq_nil_iff.mpr (by decide)]
    exact List.mergeSort_nil
  rw [load, fileFields, ok_bind, ofFields, hknown]
  rfl

/-- The settings with the texts are saved below no directory and loaded again. -/
theorem load_of_save_markedSettings : load {} markedOverrides none = .ok markedSettings ∧
    ".json".toList <:+ "s.json".toList ∧
    ∃ tree, save {} markedSettings (Path.ofString "s.json") = .ok tree ∧
      load tree [] (some "s.json") = .ok markedSettings := by
  have hname : ".json".toList <:+ "s.json".toList := by decide
  have hsave : save {} markedSettings (Path.ofString "s.json") =
      .ok ⟨[], [(["s.json"], .file (Text.glyphsOfText markedSettings.saved))]⟩ := by
    rw [show Path.ofString "s.json" = ⟨"", ["s.json"]⟩ by decide]
    rfl
  have h := load_of_save load_markedOverrides hname hsave
  rw [if_neg (by decide)] at h
  exact ⟨load_markedOverrides, hname, _, hsave, h⟩

/-- The tree with the defaults saved to a file that has no name but the suffix. -/
def namelessTree : File.Tree := ⟨[], [([".json"], .file (Text.glyphsOfText (saved {})))]⟩

/-- The defaults are loaded and saved to a path that ends in `.json`, and are not loaded again. -/
theorem nameless_file_not_loaded : load {} [] none = .ok {} ∧
    ".json".toList <:+ ".json".toList ∧
    save {} {} (Path.ofString ".json") = .ok namelessTree ∧
    load namelessTree [] (some ".json") = .error (.settings (.fileNotNamedJson ".json")) := by
  have hpath : Path.ofString ".json" = ⟨"", [".json"]⟩ := by decide
  have hload : load {} [] none = .ok {} := by
    rw [load, fileFields, ok_bind]
    exact ofFields_toJson (s := {}) (List.forall_mem_nil _)
  have hsave : save {} {} (Path.ofString ".json") = .ok namelessTree := by
    rw [hpath]
    rfl
  refine ⟨hload, List.suffix_refl _, hsave, ?_⟩
  rw [load_of_file (by decide), readFile_of_save hsave, hpath, if_pos (by decide)]
  rfl

end EnumHelpers.Settings
