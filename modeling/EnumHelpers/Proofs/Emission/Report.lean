import EnumHelpers.Emission.Report
import EnumHelpers.Proofs.Emission.Job
import EnumHelpers.Proofs.Enum.Resolution

/-!
# Proofs — what a generated file is made of

The sets of a job are those of the types that were resolved (`resolve_of_jobOf`), and a file is
generated if and only if its job has no faults (`job_of_generate`, `generate_of_job`): so the names
in it have the form of names.

The names of a symbol table are taken to lie on one line, as the names of a source do.
-/

namespace EnumHelpers

/-- The names of a symbol table lie on one line. -/
structure SymbolTable.NamesOnOneLine (t : SymbolTable) : Prop where
  package : ∀ s, t.package = .str s → Emission.OneLine s
  types : ∀ h ∈ t.types, ∀ s, h.name = .str s → Emission.OneLine s
  constants : ∀ r ∈ t.constants, ∀ s, r.name = .str s → Emission.OneLine s

/-! ### Jobs without faults -/

/-- A job has no faults when its names have the form of names and every type, of which there is
one, has a set. -/
theorem Job.faults_eq_nil_iff {job : Job} : job.faults = [] ↔
    Emission.packageFaults job.package = [] ∧ job.typeNames ≠ [] ∧
      (∀ name ∈ job.typeNames, Emission.isIdentifier name = true ∧
        OrderedMap.has name job.enumSets = true) ∧
      ∀ entry ∈ job.enumSets, ∀ e ∈ entry.2.elements, Emission.isIdentifier e.name = true := by
  have htype : ∀ name, job.typeFaults name = [] ↔
      Emission.isIdentifier name = true ∧ OrderedMap.has name job.enumSets = true := by
    intro name
    rw [typeFaults, List.append_eq_nil_iff]
    simp
  have hconstant : ∀ entry, constantFaults entry = [] ↔
      ∀ e ∈ entry.2.elements, Emission.isIdentifier e.name = true := by
    intro entry
    rw [constantFaults, List.map_eq_nil_iff, List.filter_eq_nil_iff]
    simp
  simp only [faults, List.append_eq_nil_iff, List.flatMap_eq_nil_iff, htype, hconstant, and_assoc]
  simp

namespace Report
open Emission OrderedMap

variable {t : SymbolTable} {s : Settings}

/-! ### The sets of a job -/

/-- What was found for a name is what resolving it gives. -/
theorem resolve_of_resolveAll {names : List String}
    {found members : OrderedMap String (List Enum.Member)}
    (h : resolveAll t s names found = .ok members) {name : String} {ms : List Enum.Member}
    (hm : get? name members = some ms) :
    get? name found = some ms ∨
      (name ∈ names ∧ Enum.resolve t (requestFor s name) = .ok ms) := by
  induction names generalizing found with
  | nil =>
      cases h
      exact .inl hm
  | cons first rest ih =>
      rw [resolveAll] at h
      split at h
      · rcases ih h with hf | ⟨hmem, hr⟩
        · exact .inl hf
        · exact .inr ⟨List.mem_cons_of_mem _ hmem, hr⟩
      · obtain ⟨ms', hr', h⟩ := bind_eq_ok.mp h
        rcases ih h with hf | ⟨hmem, hr⟩
        · rw [get?_put] at hf
          split at hf
          · rename_i e
            subst e
            cases hf
            exact .inr ⟨List.mem_cons_self, hr'⟩
          · exact .inl hf
        · exact .inr ⟨List.mem_cons_of_mem _ hmem, hr⟩

/-- A set is that of the elements of the members of its type. -/
theorem elements_of_enumSetsOf {members : OrderedMap String (List Enum.Member)}
    {sets : OrderedMap String EnumSet} (h : enumSetsOf members = .ok sets) {name : String}
    {set : EnumSet} (hs : get? name sets = some set) :
    ∃ ms elements, get? name members = some ms ∧ Enum.elementsOf ms = .ok elements ∧
      set = EnumSet.ofElements name elements := by
  induction members generalizing sets with
  | nil => cases h; cases hs
  | cons entry rest ih =>
      obtain ⟨first, ms⟩ := entry
      obtain ⟨elements, he, h⟩ := bind_eq_ok.mp h
      obtain ⟨more, hmore, h⟩ := bind_eq_ok.mp h
      cases h
      by_cases e : first = name
      · subst e
        rw [get?, if_pos rfl] at hs
        cases hs
        exact ⟨ms, elements, by rw [get?, if_pos rfl], he, rfl⟩
      · rw [get?, if_neg e] at hs
        rw [get?, if_neg e]
        exact ih hmore hs

/-- The set of a type in a job comes from resolving the type. -/
theorem resolve_of_jobOf {job : Job} (h : jobOf t s = .ok job) {name : String} {set : EnumSet}
    (hs : get? name job.enumSets = some set) :
    name ∈ s.sortedTypeNames ∧ ∃ ms elements,
      Enum.resolve t (requestFor s name) = .ok ms ∧ Enum.elementsOf ms = .ok elements ∧
        set = EnumSet.ofElements name elements := by
  obtain ⟨members, hm, h⟩ := bind_eq_ok.mp h
  obtain ⟨package, -, h⟩ := bind_eq_ok.mp h
  obtain ⟨sets, hsets, h⟩ := bind_eq_ok.mp h
  cases h
  obtain ⟨ms, elements, hget, he, rfl⟩ := elements_of_enumSetsOf hsets hs
  rcases resolve_of_resolveAll hm hget with hf | ⟨hmem, hr⟩
  · cases hf
  · exact ⟨hmem, ms, elements, hr, he, rfl⟩

theorem eq_str_of_packageText {v : Json} {name : String} (h : packageText v = .ok name) :
    v = .str name := by
  cases v with
  | str s => cases h; rfl
  | _ => cases h

theorem fields_of_jobOf {job : Job} (h : jobOf t s = .ok job) :
    job.typeNames = s.sortedTypeNames ∧ job.command = s.command ∧ t.package = .str job.package := by
  obtain ⟨members, -, h⟩ := bind_eq_ok.mp h
  obtain ⟨package, hp, h⟩ := bind_eq_ok.mp h
  obtain ⟨sets, -, h⟩ := bind_eq_ok.mp h
  cases h
  exact ⟨rfl, rfl, eq_str_of_packageText hp⟩

/-! ### Names -/

/-- The names of a job without faults are words. -/
theorem worded_of_faults {job : Job} (hn : t.NamesOnOneLine) (h : jobOf t s = .ok job)
    (hf : job.faults = []) : job.Worded := by
  intro name set hs
  obtain ⟨-, -, htypes, hconstants⟩ := Job.faults_eq_nil_iff.mp hf
  obtain ⟨hmem, ms, elements, hr, he, rfl⟩ := resolve_of_jobOf h hs
  rw [EnumSet.elements_ofElements]
  refine ⟨?_, rfl, fun e hm => ?_⟩
  · obtain ⟨handle, hh, hname⟩ := Enum.type_of_resolve hr
    rw [← (fields_of_jobOf h).1] at hmem
    exact isWord_of_isIdentifier (htypes name hmem).1 (hn.types handle hh name hname)
  · obtain ⟨r, hr, hname⟩ := Enum.name_of_mem_elements hr he e hm
    have hid := hconstants _ (mem_of_get? hs) e (by rwa [EnumSet.elements_ofElements])
    exact isWord_of_isIdentifier hid (hn.constants r hr e.name hname)

/-! ### Generated files -/

/-- A generated file is a tidied text of the lines of a job without faults. -/
theorem job_of_generate {code : String} {warnings : List Job.Warning} {summary : Summary}
    (h : generate t s = .ok (.generated code warnings summary)) :
    ∃ job, jobOf t s = .ok job ∧ job.faults = [] ∧ code = tidy (textOfLines job.fileLines) := by
  have hr : attempt t s = .ok (.generated code warnings summary) := by
    rw [generate] at h
    cases hr : attempt t s with
    | ok report => rwa [hr] at h
    | error cause =>
        rw [hr, settle.eq_def] at h
        by_cases hg : cause.isGeneration = true
        · simp [hg] at h
        · simp [hg] at h
  obtain ⟨job, hj, hr⟩ := bind_eq_ok.mp hr
  obtain ⟨raw, hc, hr⟩ := bind_eq_ok.mp hr
  simp only [Except.ok.injEq, Report.generated.injEq] at hr
  obtain ⟨hf, hraw⟩ := Job.code_eq_textOfLines hc
  exact ⟨job, hj, hf, by rw [← hr.1, hraw]⟩

/-- A run whose job has no faults generates a file. -/
theorem generate_of_job {job : Job} (hj : jobOf t s = .ok job) (hf : job.faults = []) :
    ∃ code, generate t s = .ok (.generated code job.warnings (summaryOf job)) := by
  obtain ⟨raw, hraw⟩ : ∃ raw, job.code = .ok raw := ⟨_, if_pos (List.isEmpty_iff.mpr hf)⟩
  refine ⟨tidy raw, ?_⟩
  rw [generate, attempt, hj, ok_bind, hraw]
  rfl

theorem mem_sortedTypeNames {name : String} : name ∈ s.sortedTypeNames ↔ name ∈ s.typeNames := by
  rw [Settings.sortedTypeNames, Settings.sortTexts, List.mem_mergeSort]

/-- Every type that is asked for has a set in a job without faults. -/
theorem set_of_mem_typeNames {job : Job} (h : jobOf t s = .ok job) (hf : job.faults = [])
    {name : String} (hm : name ∈ s.typeNames) :
    name ∈ job.typeNames ∧ ∃ set, get? name job.enumSets = some set := by
  have hmem : name ∈ job.typeNames := by
    rw [(fields_of_jobOf h).1]
    exact mem_sortedTypeNames.mpr hm
  exact ⟨hmem, Option.isSome_iff_exists.mp ((Job.faults_eq_nil_iff.mp hf).2.2.1 name hmem).2⟩

/-! ### A type with a repeated value -/

/-- A table with two constants of one value, the second of which has a comment with a quote. -/
def pairTable : SymbolTable where
  package := .str "p"
  types := [⟨.str "T", .null⟩]
  constants := [
    ⟨.str "A", .str "T", .exact (.whole 1), .str "a.go", .int 0, .null⟩,
    ⟨.str "B", .str "T", .exact (.whole 1), .str "a.go", .int 1, .str "b\"c"⟩]

/-- Settings that ask for the type of the table, with its comments. -/
def pairSettings : Settings := { typeNames := ["T"], lineComment := true }

theorem namesOnOneLine_pairTable : pairTable.NamesOnOneLine := by
  constructor
  · rintro s ⟨⟩
    exact oneLine_ofList rfl
  · intro h hm s hs
    rw [List.mem_singleton.mp hm] at hs
    cases hs
    exact oneLine_ofList rfl
  · intro r hm s hs
    rcases List.mem_cons.mp hm with rfl | hm
    · cases hs
      exact oneLine_ofList rfl
    · rw [List.mem_singleton.mp hm] at hs
      cases hs
      exact oneLine_ofList rfl

theorem ordered_pairTable : pairTable.ordered = .ok pairTable.constants := by
  have h : SymbolTable.allComparable pairTable.constants = true := by
    simp [pairTable, SymbolTable.allComparable, SymbolTable.comparable, SymbolTable.recordBefore?,
      Json.same, Json.before?, Json.measure?, Json.Measure.same]
  have hle : pairTable.constants.Pairwise fun a b => SymbolTable.mayPrecede a b = true := by
    have hlt : ¬ (1 : Rat) < 0 := by decide
    simp [pairTable, SymbolTable.mayPrecede, SymbolTable.recordBefore?, Json.same, Json.before?,
      Json.measure?, Json.Measure.same, Json.Measure.below, hlt]
  rw [SymbolTable.ordered, if_pos h, List.mergeSort_of_pairwise hle]

theorem constants_pairTable : Enum.constants pairTable "T" = .ok pairTable.constants := by
  have handle : pairTable.handle? (.str "T") = some ⟨.str "T", .null⟩ := by
    simp [SymbolTable.handle?, pairTable, SymbolTable.handleIn?, Json.same]
  have canonical : pairTable.canonical (.str "T") = .ok (.str "T") := by
    simp [SymbolTable.canonical, SymbolTable.canonicalFrom, handle, SymbolTable.isNull, Json.isKey]
  have records : Enum.recordsOf pairTable (.str "T") pairTable.constants =
      .ok pairTable.constants := by
    show Enum.recordsOf pairTable (.str "T") [_, _] = _
    simp [Enum.recordsOf, Enum.hasType, SymbolTable.isNull, canonical, Json.same]
    rfl
  have nonempty : pairTable.constants ≠ [] := List.cons_ne_nil _ _
  simp [Enum.constants, SymbolTable.lookup, handle, canonical, ordered_pairTable, records, nonempty]

theorem resolve_pairTable : Enum.resolve pairTable (requestFor pairSettings "T") =
    .ok [⟨.str "A", 1, .str "A"⟩, ⟨.str "B", 1, .str "b\"c"⟩] := by
  have h : Enum.membersFrom (requestFor pairSettings "T") [] pairTable.constants =
      .ok [⟨.str "A", 1, .str "A"⟩, ⟨.str "B", 1, .str "b\"c"⟩] := by
    show Enum.membersFrom _ _ [_, _] = _
    simp [Enum.membersFrom, Enum.memberOf, Json.same, Json.isKey]
    rfl
  simp [Enum.resolve, constants_pairTable, requestFor]
  exact h

theorem generate_pairTable : ∃ code warnings summary,
    generate pairTable pairSettings = .ok (.generated code warnings summary) := by
  have hnames : pairSettings.sortedTypeNames = ["T"] := List.mergeSort_singleton "T"
  obtain ⟨job, hjob, hfaults⟩ :
      ∃ job, jobOf pairTable pairSettings = .ok job ∧ job.faults = [] := by
    rw [jobOf, hnames, resolveAll, resolve_pairTable]
    exact ⟨_, rfl, by decide⟩
  obtain ⟨code, h⟩ := generate_of_job hjob hfaults
  exact ⟨code, _, _, h⟩

end Report
end EnumHelpers
