import EnumHelpers.Proofs.Emission.Report
import EnumHelpers.Proofs.Enum.Failures

/-!
# Proofs — what a run answers

The types of a run are resolved one after another, and the first that is not decides what the run
answers.  On a table with names the answer is always a report, unless resolution halts at a record
of that type (`Enum.HaltsAt`); and a report is faithful (`Report.Answers`): it holds code only when
every type was resolved, and otherwise the failure that was met first.

* `job_of_resolves`: when every type is resolved there is a job.
* `exists_answer_iff`: a run answers if and only if resolution halts nowhere.
-/

namespace EnumHelpers.Report
open OrderedMap

variable {t : SymbolTable} {s : Settings}

/-! ### The types of a run -/

/-- A type is resolved in a run. -/
def Resolves (t : SymbolTable) (s : Settings) (name : String) : Prop :=
  ∃ members, Enum.resolve t (requestFor s name) = .ok members

/-- The first of some types that is not resolved fails to be for the given reason. -/
def FirstUnresolved (t : SymbolTable) (s : Settings) (names : List String) (cause : Failure) :
    Prop :=
  ∃ before name after, names = before ++ name :: after ∧ (∀ n ∈ before, Resolves t s n) ∧
    Enum.resolve t (requestFor s name) = .error cause

theorem not_firstUnresolved_nil {cause : Failure} : ¬ FirstUnresolved t s [] cause := by
  rintro ⟨before, name, after, h, -⟩
  exact absurd h.symm (List.append_ne_nil_of_right_ne_nil _ (List.cons_ne_nil _ _))

theorem firstUnresolved_cons {first : String} {rest : List String} {cause : Failure} :
    FirstUnresolved t s (first :: rest) cause ↔
      Enum.resolve t (requestFor s first) = .error cause ∨
        (Resolves t s first ∧ FirstUnresolved t s rest cause) := by
  constructor
  · rintro ⟨before, name, after, h, hb, hr⟩
    cases before with
    | nil =>
        cases h
        exact .inl hr
    | cons _ before =>
        cases h
        rw [List.forall_mem_cons] at hb
        exact .inr ⟨hb.1, before, name, after, rfl, hb.2, hr⟩
  · rintro (hr | ⟨hfirst, before, name, after, rfl, hb, hr⟩)
    · exact ⟨[], first, rest, rfl, nofun, hr⟩
    · exact ⟨first :: before, name, after, rfl, List.forall_mem_cons.mpr ⟨hfirst, hb⟩, hr⟩

/-- With one more type that is resolved, the types that were found are still resolved. -/
theorem resolves_of_has_put {found : OrderedMap String (List Enum.Member)}
    (hfound : ∀ n, has n found = true → Resolves t s n) {first : String}
    {members : List Enum.Member} (hm : Enum.resolve t (requestFor s first) = .ok members) :
    ∀ n, has n (put first members found) = true → Resolves t s n := by
  intro n hn
  rw [has, get?_put] at hn
  split at hn
  · rename_i e
    exact e ▸ ⟨members, hm⟩
  · exact hfound n hn

theorem resolves_of_has_nil (n : String)
    (h : has n ([] : OrderedMap String (List Enum.Member)) = true) : Resolves t s n := by
  cases h

/-- Types fail to be resolved as the first of them that is not resolved. -/
theorem resolveAll_eq_error_iff {names : List String}
    {found : OrderedMap String (List Enum.Member)} {cause : Failure}
    (hfound : ∀ n, has n found = true → Resolves t s n) :
    resolveAll t s names found = .error cause ↔ FirstUnresolved t s names cause := by
  induction names generalizing found with
  | nil =>
      refine ⟨fun h => ?_, fun h => (not_firstUnresolved_nil h).elim⟩
      cases h
  | cons first rest ih =>
      rw [firstUnresolved_cons, resolveAll]
      split
      · rename_i hhas
        obtain ⟨members, hm⟩ := hfound first hhas
        rw [ih hfound]
        refine ⟨fun h => .inr ⟨⟨members, hm⟩, h⟩, ?_⟩
        rintro (h | ⟨-, h⟩)
        · rw [hm] at h
          cases h
        · exact h
      · rw [bind_eq_error]
        refine or_congr_right ⟨?_, ?_⟩
        · rintro ⟨members, hm, h⟩
          exact ⟨⟨members, hm⟩, (ih (resolves_of_has_put hfound hm)).mp h⟩
        · rintro ⟨⟨members, hm⟩, h⟩
          exact ⟨members, hm, (ih (resolves_of_has_put hfound hm)).mpr h⟩

/-- Either every type is resolved, or one is the first that is not. -/
theorem firstUnresolved_or_resolves (t : SymbolTable) (s : Settings) (names : List String) :
    (∃ cause, FirstUnresolved t s names cause) ∨ ∀ n ∈ names, Resolves t s n := by
  induction names with
  | nil => exact .inr nofun
  | cons first rest ih =>
      cases hr : Enum.resolve t (requestFor s first) with
      | error cause => exact .inl ⟨cause, firstUnresolved_cons.mpr (.inl hr)⟩
      | ok members =>
          rcases ih with ⟨cause, h⟩ | h
          · exact .inl ⟨cause, firstUnresolved_cons.mpr (.inr ⟨⟨members, hr⟩, h⟩)⟩
          · exact .inr (List.forall_mem_cons.mpr ⟨⟨members, hr⟩, h⟩)

theorem not_resolves_of_firstUnresolved {names : List String} {cause : Failure}
    (h : FirstUnresolved t s names cause) : ∃ name ∈ names, ¬ Resolves t s name := by
  obtain ⟨before, name, after, rfl, -, hr⟩ := h
  refine ⟨name, List.mem_append_right _ List.mem_cons_self, ?_⟩
  rintro ⟨members, hm⟩
  rw [hr] at hm
  cases hm

/-! ### The job of a run -/

/-- What is found for a type is what resolving it gives. -/
theorem mem_resolveAll {names : List String} {found members : OrderedMap String (List Enum.Member)}
    (h : resolveAll t s names found = .ok members) : ∀ entry ∈ members,
    entry ∈ found ∨ Enum.resolve t (requestFor s entry.1) = .ok entry.2 := by
  induction names generalizing found with
  | nil =>
      cases h
      exact fun entry hm => .inl hm
  | cons first rest ih =>
      rw [resolveAll] at h
      split at h
      · exact ih h
      · obtain ⟨ms, hms, h⟩ := bind_eq_ok.mp h
        intro entry hm
        rcases ih h entry hm with hm | hr
        · rcases mem_put hm with rfl | hm
          · exact .inr hms
          · exact .inl hm
        · exact .inr hr

theorem enumSetsOf_of_elements {members : OrderedMap String (List Enum.Member)}
    (h : ∀ entry ∈ members, ∃ elements, Enum.elementsOf entry.2 = .ok elements) :
    ∃ sets, enumSetsOf members = .ok sets := by
  induction members with
  | nil => exact ⟨[], rfl⟩
  | cons entry rest ih =>
      obtain ⟨name, ms⟩ := entry
      rw [List.forall_mem_cons] at h
      obtain ⟨elements, he⟩ := h.1
      obtain ⟨more, hmore⟩ := ih h.2
      exact ⟨_, by rw [enumSetsOf, he, ok_bind, hmore, ok_bind]⟩

theorem exists_resolveAll {names : List String} (h : ∀ n ∈ names, Resolves t s n) :
    ∃ members, resolveAll t s names [] = .ok members := by
  cases hm : resolveAll t s names [] with
  | ok members => exact ⟨members, rfl⟩
  | error cause =>
      obtain ⟨name, hname, hn⟩ :=
        not_resolves_of_firstUnresolved ((resolveAll_eq_error_iff resolves_of_has_nil).mp hm)
      exact absurd (h name hname) hn

/-- When every type of a run is resolved there is a job. -/
theorem job_of_resolves (ht : t.Named) (h : ∀ n ∈ s.sortedTypeNames, Resolves t s n) :
    ∃ job, jobOf t s = .ok job := by
  obtain ⟨members, hm⟩ := exists_resolveAll h
  obtain ⟨package, hp⟩ := ht.package
  obtain ⟨sets, hs⟩ := enumSetsOf_of_elements fun entry he =>
    Enum.elementsOf_resolve ht ((mem_resolveAll hm entry he).resolve_left List.not_mem_nil)
  exact ⟨_, by rw [jobOf, hm, ok_bind, hp, packageText, ok_bind, hs, ok_bind]⟩

theorem jobOf_of_firstUnresolved {cause : Failure}
    (h : FirstUnresolved t s s.sortedTypeNames cause) : jobOf t s = .error cause := by
  rw [jobOf, (resolveAll_eq_error_iff resolves_of_has_nil).mpr h]
  rfl

/-! ### Answers -/

/-- What a report has to say of a run.  With code: every type was resolved, and the code is that of
their job.  With a failure: it is one of generation and the one met first, at a type or, when every
type was resolved, in their job. -/
def Answers (t : SymbolTable) (s : Settings) : Report → Prop
  | .generated code _ _ => (∀ name ∈ s.typeNames, Resolves t s name) ∧
      ∃ job raw, jobOf t s = .ok job ∧ job.code = .ok raw ∧ code = Emission.tidy raw
  | .failed cause => cause.isGeneration = true ∧
      (FirstUnresolved t s s.sortedTypeNames cause ∨
        ((∀ name ∈ s.typeNames, Resolves t s name) ∧
          ∃ job, jobOf t s = .ok job ∧ job.code = .error cause))

/-- A run halts: at a record of its first type that is not resolved. -/
def Halted (t : SymbolTable) (s : Settings) : Prop :=
  ∃ before name after r, s.sortedTypeNames = before ++ name :: after ∧
    (∀ n ∈ before, Resolves t s n) ∧ Enum.HaltsAt t (requestFor s name) r

theorem halted_iff (ht : t.Named) : Halted t s ↔
    ∃ cause, FirstUnresolved t s s.sortedTypeNames cause ∧ cause.isGeneration = false := by
  constructor
  · rintro ⟨before, name, after, r, hsplit, hb, hr⟩
    obtain ⟨cause, hc, hcause⟩ := (Enum.resolve_halts_iff ht).mpr ⟨r, hr⟩
    exact ⟨cause, ⟨before, name, after, hsplit, hb, hc⟩, hcause⟩
  · rintro ⟨cause, ⟨before, name, after, hsplit, hb, hc⟩, hcause⟩
    obtain ⟨r, hr⟩ := (Enum.resolve_halts_iff ht).mp ⟨cause, hc, hcause⟩
    exact ⟨before, name, after, r, hsplit, hb, hr⟩

/-- When every type is resolved, a run answers with the code of its job, or with its faults. -/
theorem generate_of_resolves (ht : t.Named) (h : ∀ n ∈ s.sortedTypeNames, Resolves t s n) :
    ∃ report, generate t s = .ok report ∧ report.Answers t s := by
  obtain ⟨job, hj⟩ := job_of_resolves ht h
  have hall : ∀ name ∈ s.typeNames, Resolves t s name :=
    fun name hn => h name (mem_sortedTypeNames.mpr hn)
  rw [generate, attempt, hj, ok_bind]
  cases hc : job.code with
  | ok raw => exact ⟨_, rfl, hall, job, raw, hj, hc, rfl⟩
  | error cause =>
      have hcause : cause.isGeneration = true := by
        rw [Job.code] at hc
        split at hc
        · cases hc
        · cases hc
          rfl
      exact ⟨.failed cause, if_pos hcause, hcause, .inr ⟨hall, job, hj, hc⟩⟩

/-- A run fails with the failure of its first type that is not resolved, in a report when it is one
of generation. -/
theorem generate_of_firstUnresolved {cause : Failure}
    (h : FirstUnresolved t s s.sortedTypeNames cause) :
    generate t s = if cause.isGeneration then .ok (.failed cause) else .error cause := by
  rw [generate, attempt, jobOf_of_firstUnresolved h]
  rfl

/-- **A run answers, unless it halts.**  On a table whose names are texts and whose places are
integers, whatever its values are, a run gives a report, and the report is faithful, if and only if
resolution does not halt at a record of the first type that is not resolved. -/
theorem exists_answer_iff (ht : t.Named) :
    (∃ report, generate t s = .ok report ∧ report.Answers t s) ↔ ¬ Halted t s := by
  rw [halted_iff ht]
  rcases firstUnresolved_or_resolves t s s.sortedTypeNames with ⟨cause, h⟩ | h
  · rw [generate_of_firstUnresolved h]
    by_cases hcause : cause.isGeneration = true
    · rw [if_pos hcause]
      refine ⟨fun _ ⟨cause', h', hcause'⟩ => ?_, fun _ => ⟨_, rfl, hcause, .inl h⟩⟩
      have he := (jobOf_of_firstUnresolved h).symm.trans (jobOf_of_firstUnresolved h')
      cases he
      rw [hcause] at hcause'
      cases hcause'
    · rw [if_neg hcause]
      rw [Bool.not_eq_true] at hcause
      refine ⟨?_, fun hn => (hn ⟨cause, h, hcause⟩).elim⟩
      rintro ⟨report, hr, -⟩
      cases hr
  · refine ⟨fun _ ⟨cause, hc, _⟩ => ?_, fun _ => generate_of_resolves ht h⟩
    obtain ⟨name, hname, hn⟩ := not_resolves_of_firstUnresolved hc
    exact hn (h name hname)

/-! ### Values that stop a run -/

theorem named_pairTable : pairTable.Named := by
  refine ⟨⟨_, rfl⟩, ?_, ?_, ?_, ?_, ?_⟩
  · exact List.forall_mem_singleton.mpr ⟨⟨_, rfl⟩, .inl rfl⟩
  · exact List.forall_mem_cons.mpr ⟨⟨_, rfl⟩, List.forall_mem_singleton.mpr ⟨_, rfl⟩⟩
  · exact List.forall_mem_cons.mpr ⟨.inr ⟨_, rfl⟩, List.forall_mem_singleton.mpr (.inr ⟨_, rfl⟩)⟩
  · exact List.forall_mem_cons.mpr ⟨⟨_, rfl⟩, List.forall_mem_singleton.mpr ⟨_, rfl⟩⟩
  · exact List.forall_mem_cons.mpr ⟨⟨_, rfl⟩, List.forall_mem_singleton.mpr ⟨_, rfl⟩⟩

theorem exists_answer_pairTable : pairTable.Named ∧
    ∃ report, generate pairTable pairSettings = .ok report ∧
      report.Answers pairTable pairSettings := by
  refine ⟨named_pairTable, (exists_answer_iff named_pairTable).mpr ?_⟩
  rintro ⟨-, name, -, r, -, -, -, before, after, hsplit, -, -, hh⟩
  have hmem : r ∈ Enum.recordsWith pairTable (requestFor pairSettings name).name := by
    rw [hsplit]
    exact List.mem_append_right _ List.mem_cons_self
  have hr := Enum.mem_of_mem_recordsWith hmem
  rcases List.mem_cons.mp hr with rfl | hr
  · rcases hh with hv | ⟨-, hc⟩
    · exact hv
    · exact Bool.noConfusion hc.2.1
  · cases List.mem_singleton.mp hr
    rcases hh with hv | ⟨-, hc⟩
    · exact hv
    · exact hc.2.2 _ rfl

/-- A table with a constant whose value has the form of an octal number and is none. -/
def octalTable : SymbolTable where
  package := .str "p"
  types := [⟨.str "T", .null⟩]
  constants := [⟨.str "A", .str "T", .exact (.text "089"), .str "", .int 0, .null⟩]

/-- Settings that ask for the type of the table. -/
def octalSettings : Settings := { typeNames := ["T"] }

theorem named_octalTable : octalTable.Named := by
  refine ⟨⟨_, rfl⟩, ?_, ?_, ?_, ?_, ?_⟩
  · exact List.forall_mem_singleton.mpr ⟨⟨_, rfl⟩, .inl rfl⟩
  · exact List.forall_mem_singleton.mpr ⟨_, rfl⟩
  · exact List.forall_mem_singleton.mpr (.inr ⟨_, rfl⟩)
  · exact List.forall_mem_singleton.mpr ⟨_, rfl⟩
  · exact List.forall_mem_singleton.mpr ⟨_, rfl⟩

theorem resolve_octalTable : Enum.resolve octalTable (requestFor octalSettings "T") =
    .error (.number (.notInteger 8 "089")) := by
  have handle : octalTable.handle? (.str "T") = some ⟨.str "T", .null⟩ := by
    simp [SymbolTable.handle?, octalTable, SymbolTable.handleIn?, Json.same]
  have canonical : octalTable.canonical (.str "T") = .ok (.str "T") := by
    simp [SymbolTable.canonical, SymbolTable.canonicalFrom, handle, SymbolTable.isNull, Json.isKey]
  have stands (r) (hr : r ∈ octalTable.constants) :
      Enum.standsFor octalTable (.str "T") r = true := by
    cases List.mem_singleton.mp hr
    rw [Enum.standsFor, Enum.hasType, canonical, ok_bind, Json.same_str]
    rfl
  have records : Enum.recordsWith octalTable "T" = octalTable.constants := by
    rw [Enum.recordsWith, canonical, octalTable, List.mergeSort_singleton]
    exact List.filter_eq_self.mpr stands
  rw [Enum.resolve, Enum.constants_of_named named_octalTable, requestFor, records,
    SymbolTable.lookup, handle]
  rfl

/-- The value of the constant is read as an octal number, which it is not, and nothing refuses it:
the run gives no report. -/
theorem octal_value_stops_run : octalTable.Named ∧
    generate octalTable octalSettings = .error (.number (.notInteger 8 "089")) := by
  refine ⟨named_octalTable,
    generate_of_firstUnresolved ⟨[], "T", [], ?_, nofun, resolve_octalTable⟩⟩
  exact List.mergeSort_singleton "T"

end EnumHelpers.Report
