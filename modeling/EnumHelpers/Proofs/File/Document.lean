import EnumHelpers.Proofs.Json.Documents
import EnumHelpers.Proofs.Text.Utf8
import EnumHelpers.Settings.Document
import EnumHelpers.Symbol.Location

/-!
# Proofs — documents in files

Symbol tables and settings are read from files that hold a document.  Both readers go the same way
(`held`) and differ in the failures that are their own: what is wrong with the file for a symbol
table is a fault of loading, and for settings a fault of the settings.

* `own_failures_iff`: both fail with failures of their own on every content but that which stops
  them (`Stops`), with bytes that are no text or an integer with too many digits.  There they fail
  alike, with a failure that is neither reader's.  Everything else that is no document is refused.
-/

namespace EnumHelpers.File

variable {tree : Tree} {path : Path} {content : List Text.Glyph} {bytes : List Nat}
  {malformed cause : Failure} {v : Json}

/-! ### What is held -/

/-- The value that a content holds, where `malformed` is the failure for a text that is no
document. -/
def held (malformed : Failure) (content : List Text.Glyph) : Except Failure Json :=
  match Text.textOfGlyphs content with
  | none => .error .notText
  | some text =>
    match Json.read text with
    | .ok v => .ok v
    | .error .malformed => .error malformed
    | .error (.integer cause) => .error (.number cause)

/-- The bytes that stop a reader: those of no text, and those of a text that could become a document
up to an integer that is too long. -/
def Stops (bytes : List Nat) : Prop :=
  (∀ text, bytes ≠ Text.utf8 text) ∨ ∃ text, bytes = Text.utf8 text ∧ Json.MeetsLong text

/-- The failures that belong to no reader. -/
inductive Foreign : Failure → Prop where
  | notText : Foreign .notText
  | number (fault : Number.Fault) : Foreign (.number fault)

theorem held_utf8 (text : String) : held malformed (Text.glyphsOfBytes (Text.utf8 text)) =
    match Json.read text with
    | .ok v => .ok v
    | .error .malformed => .error malformed
    | .error (.integer cause) => .error (.number cause) := by
  rw [held, Text.textOfGlyphs_glyphsOfBytes.mpr rfl]

theorem held_ok_iff : held malformed (Text.glyphsOfBytes bytes) = .ok v ↔
    ∃ text, bytes = Text.utf8 text ∧ Json.read text = .ok v := by
  constructor
  · intro h
    unfold held at h
    split at h
    · cases h
    · rename_i text htext
      refine ⟨text, Text.textOfGlyphs_glyphsOfBytes.mp htext, ?_⟩
      split at h
      · rename_i hread
        cases h
        exact hread
      · cases h
      · cases h
  · rintro ⟨text, rfl, hread⟩
    rw [held_utf8, hread]

/-- What stops a reader is no fault of either kind, and the same for both. -/
theorem held_of_stops (h : Stops bytes) : ∃ cause, Foreign cause ∧
    ∀ malformed, held malformed (Text.glyphsOfBytes bytes) = .error cause := by
  rcases h with hnone | ⟨text, rfl, hlong⟩
  · refine ⟨.notText, .notText, fun malformed => ?_⟩
    have htext : Text.textOfGlyphs (Text.glyphsOfBytes bytes) = none :=
      Option.eq_none_iff_forall_ne_some.mpr fun text htext =>
        hnone text (Text.textOfGlyphs_glyphsOfBytes.mp htext)
    rw [held, htext]
  · obtain ⟨fault, hread⟩ := Json.read_integer_iff.mpr hlong
    refine ⟨.number fault, .number fault, fun malformed => ?_⟩
    rw [held_utf8, hread]

theorem held_error_of_not_stops (h : ¬ Stops bytes)
    (hheld : held malformed (Text.glyphsOfBytes bytes) = .error cause) : cause = malformed := by
  simp only [Stops, not_or, not_forall, not_not] at h
  obtain ⟨⟨text, rfl⟩, hlong⟩ := h
  rw [held_utf8] at hheld
  split at hheld
  · cases hheld
  · cases hheld
    rfl
  · rename_i fault hread
    exact absurd ⟨text, rfl, Json.read_integer_iff.mp ⟨fault, hread⟩⟩ hlong

/-- A reader has failures of its own where nothing stops it, and only there. -/
theorem held_own_iff (own : Failure → Prop) (hown : own malformed)
    (hforeign : ∀ cause, Foreign cause → ¬ own cause) :
    (∀ cause, held malformed (Text.glyphsOfBytes bytes) = .error cause → own cause) ↔
      ¬ Stops bytes := by
  constructor
  · intro h hstops
    obtain ⟨cause, hcause, hheld⟩ := held_of_stops hstops
    exact hforeign cause hcause (h cause (hheld malformed))
  · intro h cause hheld
    rwa [held_error_of_not_stops h hheld]

/-! ### The two readers -/

/-- The fields that settings are read from, of the document in the file at a path. -/
def fieldsOf (path : Path) : Json → Except Failure (OrderedMap String Json)
  | .obj fields => .ok fields
  | _ => .error (.settings (.fileNotObject path.text))

theorem fieldsOf_eq_ok_iff {fields : OrderedMap String Json} :
    fieldsOf path v = .ok fields ↔ v = .obj fields := by
  cases v <;> simp [fieldsOf]

theorem fieldsOf_eq_error (h : fieldsOf path v = .error cause) :
    ∃ fault, cause = .settings fault := by
  cases v
  case obj => cases h
  all_goals exact ⟨_, (Except.error.inj h).symm⟩

section
variable (hread : tree.read path = .ok content)
include hread

theorem exists_of_read : tree.exists? path = true := by
  rw [Tree.read.eq_def] at hread
  rw [Tree.exists?]
  split at hread
  · rename_i hfind
    rw [hfind]
  all_goals cases hread

theorem readTable_eq :
    SymbolTable.readFile tree path = held (.loading (.fileNotJson path.text)) content := by
  rw [SymbolTable.readFile, exists_of_read hread, if_neg (by decide), hread]
  rfl

theorem readSettings_of_json (hjson : Text.lower path.suffix = ".json") :
    Settings.readFile tree path =
      held (.settings (.fileNotJson path.text)) content >>= fieldsOf path := by
  rw [Settings.readFile, exists_of_read hread, if_neg (by decide), if_neg (not_not_intro hjson),
    hread, held]
  dsimp only
  cases Text.textOfGlyphs content with
  | none => rfl
  | some text =>
      dsimp only
      cases Json.read text with
      | error e => cases e <;> rfl
      | ok v => cases v <;> rfl

theorem readSettings_of_not_json (hjson : Text.lower path.suffix ≠ ".json") :
    Settings.readFile tree path = .error (.settings (.fileNotNamedJson path.text)) := by
  rw [Settings.readFile, exists_of_read hread, if_neg (by decide), if_pos hjson]

end

section
variable (hread : tree.read path = .ok (Text.glyphsOfBytes bytes))
include hread

theorem readTable_own_iff :
    (∀ cause, SymbolTable.readFile tree path = .error cause → ∃ fault, cause = .loading fault) ↔
      ¬ Stops bytes := by
  rw [readTable_eq hread]
  refine held_own_iff (fun cause => ∃ fault, cause = .loading fault) ⟨_, rfl⟩ ?_
  rintro _ (_ | _) ⟨_, ⟨⟩⟩

theorem readSettings_own_iff :
    (∀ cause, Settings.readFile tree path = .error cause → ∃ fault, cause = .settings fault) ↔
      ¬ (Text.lower path.suffix = ".json" ∧ Stops bytes) := by
  by_cases hjson : Text.lower path.suffix = ".json"
  · have hown : (∀ cause, held (.settings (.fileNotJson path.text)) (Text.glyphsOfBytes bytes) =
        .error cause → ∃ fault, cause = .settings fault) ↔ ¬ Stops bytes := by
      refine held_own_iff (fun cause => ∃ fault, cause = .settings fault) ⟨_, rfl⟩ ?_
      rintro _ (_ | _) ⟨_, ⟨⟩⟩
    rw [readSettings_of_json hread hjson, not_and, imp_iff_right hjson, ← hown]
    refine forall_congr' fun cause => ?_
    rw [bind_eq_error]
    constructor
    · exact fun h hheld => h (.inl hheld)
    · rintro h (hheld | ⟨v, -, hfields⟩)
      · exact h hheld
      · exact fieldsOf_eq_error hfields
  · rw [readSettings_of_not_json hread hjson]
    refine iff_of_true ?_ fun h => hjson h.1
    rintro _ ⟨⟩
    exact ⟨_, rfl⟩

end

/-- **Both readers fail with failures of their own on every content of a file that does not stop
them**, and on a content that does they fail alike with another.  Where they do not fail, a symbol
table is given the value that the text of the file spells, and settings the fields of an
object. -/
theorem own_failures_iff (hread : tree.read path = .ok (Text.glyphsOfBytes bytes)) :
    ((∀ cause, SymbolTable.readFile tree path = .error cause → ∃ fault, cause = .loading fault) ↔
      ¬ Stops bytes) ∧
    ((∀ cause, Settings.readFile tree path = .error cause → ∃ fault, cause = .settings fault) ↔
      ¬ (Text.lower path.suffix = ".json" ∧ Stops bytes)) ∧
    (Stops bytes → ∃ cause, Foreign cause ∧ SymbolTable.readFile tree path = .error cause ∧
      (Text.lower path.suffix = ".json" → Settings.readFile tree path = .error cause)) ∧
    (∀ v, SymbolTable.readFile tree path = .ok v ↔
      ∃ text, bytes = Text.utf8 text ∧ Json.read text = .ok v) ∧
    ((∃ v, SymbolTable.readFile tree path = .ok v) ↔
      ∃ text, bytes = Text.utf8 text ∧ Json.Document text) ∧
    ∀ fields, Settings.readFile tree path = .ok fields ↔
      Text.lower path.suffix = ".json" ∧ SymbolTable.readFile tree path = .ok (.obj fields) := by
  refine ⟨readTable_own_iff hread, readSettings_own_iff hread, fun h => ?_, fun v => ?_, ?_,
    fun fields => ?_⟩
  · obtain ⟨cause, hforeign, hheld⟩ := held_of_stops h
    refine ⟨cause, hforeign, ?_, fun hjson => ?_⟩
    · rw [readTable_eq hread, hheld]
    · rw [readSettings_of_json hread hjson, hheld]
      rfl
  · rw [readTable_eq hread, held_ok_iff]
  · rw [readTable_eq hread]
    simp only [held_ok_iff, ← Json.read_ok_iff]
    rw [exists_comm]
    simp only [exists_and_left]
  · rw [readTable_eq hread, held_ok_iff]
    by_cases hjson : Text.lower path.suffix = ".json"
    · rw [readSettings_of_json hread hjson, bind_eq_ok, and_iff_right hjson]
      simp only [held_ok_iff, fieldsOf_eq_ok_iff, exists_eq_right]
    · rw [readSettings_of_not_json hread hjson]
      exact iff_of_false nofun fun h => hjson h.1

/-- A tree with a single file. -/
def holding (bytes : List Nat) : Tree := ⟨[], [(["c.json"], .file (Text.glyphsOfBytes bytes))]⟩

/-- The path of the single file. -/
def heldPath : Path := Path.ofString "c.json"

theorem read_holding (bytes : List Nat) :
    (holding bytes).read heldPath = .ok (Text.glyphsOfBytes bytes) := by
  have hpath : heldPath = ⟨"", ["c.json"]⟩ := by decide
  rw [hpath]
  rfl

theorem suffix_heldPath : Text.lower heldPath.suffix = ".json" := by decide

/-- Two braces are an object without fields. -/
theorem own_failures_iff_braces :
    (holding [0x7B, 0x7D]).read heldPath = .ok (Text.glyphsOfBytes [0x7B, 0x7D]) ∧
    ¬ Stops [0x7B, 0x7D] ∧
    SymbolTable.readFile (holding [0x7B, 0x7D]) heldPath = .ok (.obj []) ∧
    Settings.readFile (holding [0x7B, 0x7D]) heldPath = .ok [] := by
  have hread := read_holding [0x7B, 0x7D]
  obtain ⟨htable, -, -, hvalue, -, hfields⟩ := own_failures_iff hread
  have hbraces : SymbolTable.readFile (holding [0x7B, 0x7D]) heldPath = .ok (.obj []) :=
    (hvalue _).mpr ⟨"\x7b\x7d", by decide, by rfl⟩
  refine ⟨hread, htable.mp fun cause h => ?_, hbraces, (hfields []).mpr ⟨suffix_heldPath, hbraces⟩⟩
  rw [hbraces] at h
  cases h

/-- The bytes of a number of ones. -/
def ones (n : Nat) : List Nat := Text.utf8 (String.ofList (List.replicate n '1'))

theorem whole_ones {n : Nat} (h : 0 < n) : Json.Whole (List.replicate n '1') := by
  obtain ⟨n, rfl⟩ := Nat.exists_eq_add_one.mpr h
  refine .figures (by decide) ⟨List.cons_ne_nil _ _, fun c hc => ?_⟩
  rw [← List.replicate_succ] at hc
  rw [List.eq_of_mem_replicate hc]
  rfl

theorem stops_ones {n : Nat} (h : Number.digitLimit < n) : Stops (ones n) := by
  have hlong : Json.Overlong (List.replicate n '1') :=
    ⟨whole_ones (Nat.zero_lt_of_lt h), by rwa [List.length_replicate]⟩
  have hend : ¬ Json.Continues [] := Json.Ends.not_continues nofun
  exact .inr ⟨_, rfl, [], [], _, [], by simp, nofun, .here, .plain hlong, hend⟩

/-- **Bytes that are no text, and an integer with one digit too many**, stop both readers. -/
theorem readers_stopped :
    (SymbolTable.readFile (holding [0xFF]) heldPath = .error .notText ∧
      Settings.readFile (holding [0xFF]) heldPath = .error .notText) ∧
    ∃ cause, Foreign cause ∧ SymbolTable.readFile (holding (ones 4301)) heldPath = .error cause ∧
      Settings.readFile (holding (ones 4301)) heldPath = .error cause := by
  constructor
  · rw [readTable_eq (read_holding _), readSettings_of_json (read_holding _) suffix_heldPath]
    exact ⟨rfl, rfl⟩
  · obtain ⟨cause, hforeign, hheld⟩ := held_of_stops (stops_ones (n := 4301) (by decide))
    refine ⟨cause, hforeign, ?_, ?_⟩
    · rw [readTable_eq (read_holding _), hheld]
    · rw [readSettings_of_json (read_holding _) suffix_heldPath, hheld]
      rfl

end EnumHelpers.File
