import EnumHelpers.Proofs.Emission.Failures
import EnumHelpers.Proofs.Emission.Layout
import EnumHelpers.Proofs.Settings.Names

/-!
# Proofs — the types of a run apart

The types of a run share one symbol table, one job and one file, and still none of them shows in
the section of another.  A type has a section in a run (`SectionOf`) by what the table and the
options say of it alone, so a run over several types succeeds when the run over each of them does,
and its file is its header and the sections of these runs.

* `succeeds_iff`: a run succeeds if and only if its package has a name and every type a section.
* `code_of_generate`: the file of a run is its header and the section of each type.
* `generate_of_perm`: the order in which the types are named does not matter.
* `generate_type_by_type`: the file of a run is made of those of the runs over each type alone.
-/

namespace EnumHelpers.Report
open Emission OrderedMap

variable {t : SymbolTable} {s : Settings}

/-! ### The sets of a run -/

/-- The types that are found are those that were found before and those that are asked for. -/
theorem mem_keys_resolveAll {names : List String}
    {found members : OrderedMap String (List Enum.Member)}
    (h : resolveAll t s names found = .ok members) (name : String) :
    name ∈ keys members ↔ name ∈ keys found ∨ name ∈ names := by
  induction names generalizing found with
  | nil =>
      cases h
      simp
  | cons first rest ih =>
      rw [resolveAll] at h
      split at h
      · rename_i hfirst
        rw [has_iff_mem_keys] at hfirst
        rw [ih h, List.mem_cons]
        refine or_congr_right' fun hn => (or_iff_right ?_).symm
        rintro rfl
        exact hn hfirst
      · obtain ⟨ms, -, h⟩ := bind_eq_ok.mp h
        rw [ih h, List.mem_cons, mem_keys_put, or_comm (a := name = first), or_assoc]

theorem keys_enumSetsOf {members : OrderedMap String (List Enum.Member)}
    {sets : OrderedMap String EnumSet} (h : enumSetsOf members = .ok sets) :
    keys sets = keys members := by
  induction members generalizing sets with
  | nil =>
      cases h
      rfl
  | cons entry rest ih =>
      obtain ⟨name, ms⟩ := entry
      obtain ⟨elements, -, h⟩ := bind_eq_ok.mp h
      obtain ⟨more, hmore, h⟩ := bind_eq_ok.mp h
      cases h
      exact congrArg (name :: ·) (ih hmore)

/-- A set of a job comes from what was found for its type. -/
theorem mem_enumSetsOf {members : OrderedMap String (List Enum.Member)}
    {sets : OrderedMap String EnumSet} (h : enumSetsOf members = .ok sets) :
    ∀ entry ∈ sets, ∃ ms elements, (entry.1, ms) ∈ members ∧ Enum.elementsOf ms = .ok elements ∧
      entry.2 = EnumSet.ofElements entry.1 elements := by
  induction members generalizing sets with
  | nil =>
      cases h
      exact nofun
  | cons first rest ih =>
      obtain ⟨name, ms⟩ := first
      obtain ⟨elements, he, h⟩ := bind_eq_ok.mp h
      obtain ⟨more, hmore, h⟩ := bind_eq_ok.mp h
      cases h
      rw [List.forall_mem_cons]
      refine ⟨⟨ms, elements, List.mem_cons_self, he, rfl⟩, fun entry hm => ?_⟩
      obtain ⟨ms', elements', hms', h'⟩ := ih hmore entry hm
      exact ⟨ms', elements', List.mem_cons_of_mem _ hms', h'⟩

theorem groups_of_jobOf {job : Job} (h : jobOf t s = .ok job) : job.groups = s.groups := by
  obtain ⟨members, -, h⟩ := bind_eq_ok.mp h
  obtain ⟨package, -, h⟩ := bind_eq_ok.mp h
  obtain ⟨sets, -, h⟩ := bind_eq_ok.mp h
  cases h
  rfl

/-! ### The section of a type -/

/-- A run ends with code. -/
def Succeeds (t : SymbolTable) (s : Settings) : Prop :=
  ∃ code warnings summary, generate t s = .ok (.generated code warnings summary)

/-- The text of a generated file above the first section. -/
def headerText (package : String) (s : Settings) : String :=
  tidy (textOfLines (Job.headerLines ⟨package, s.sortedTypeNames, [], s.groups, s.command⟩))

/-- A type has a section in a run: it has elements, its name and theirs have the form of names, and
the section is made of them. -/
structure SectionOf (t : SymbolTable) (s : Settings) (name text : String) : Prop where
  identifier : isIdentifier name = true
  elements : ∃ members elements, Enum.resolve t (requestFor s name) = .ok members ∧
    Enum.elementsOf members = .ok elements ∧ (∀ e ∈ elements, isIdentifier e.name = true) ∧
    text = tidy (sectionText s.groups (EnumSet.ofElements name elements))

theorem SectionOf.unique {name a b : String} (ha : SectionOf t s name a)
    (hb : SectionOf t s name b) : a = b := by
  obtain ⟨members, elements, hr, he, -, rfl⟩ := ha.elements
  obtain ⟨members', elements', hr', he', -, rfl⟩ := hb.elements
  cases hr.symm.trans hr'
  cases he.symm.trans he'
  rfl

/-- What names the other types have does not matter to the section of a type. -/
theorem sectionOf_only {other name text : String} :
    SectionOf t (s.only other) name text ↔ SectionOf t s name text :=
  ⟨fun h => ⟨h.identifier, h.elements⟩, fun h => ⟨h.identifier, h.elements⟩⟩

/-- When every type has a section, the run has a job without faults. -/
theorem job_of_sections {package : String} (hp : t.package = .str package)
    (hpackage : packageFaults package = []) (hne : s.typeNames ≠ [])
    (h : ∀ name ∈ s.typeNames, ∃ text, SectionOf t s name text) :
    ∃ job, jobOf t s = .ok job ∧ job.faults = [] := by
  have hnames : ∀ name ∈ s.sortedTypeNames, ∃ text, SectionOf t s name text :=
    fun name hn => h name (mem_sortedTypeNames.mp hn)
  obtain ⟨members, hm⟩ : ∃ members, resolveAll t s s.sortedTypeNames [] = .ok members := by
    refine exists_resolveAll fun name hn => ?_
    obtain ⟨text, -, members, -, hr, -⟩ := hnames name hn
    exact ⟨members, hr⟩
  have hkeys : ∀ name, name ∈ keys members ↔ name ∈ s.sortedTypeNames := by
    intro name
    rw [mem_keys_resolveAll hm]
    exact or_iff_right List.not_mem_nil
  -- what was found for a type is what its section is made of
  have hmembers : ∀ entry ∈ members, ∃ elements, Enum.elementsOf entry.2 = .ok elements ∧
      ∀ e ∈ elements, isIdentifier e.name = true := by
    intro entry he
    have hname : entry.1 ∈ keys members := List.mem_map_of_mem he
    obtain ⟨text, -, ms, elements, hr, hs, hi, -⟩ := hnames entry.1 ((hkeys entry.1).mp hname)
    have hr' := (mem_resolveAll hm entry he).resolve_left List.not_mem_nil
    cases hr.symm.trans hr'
    exact ⟨elements, hs, hi⟩
  obtain ⟨sets, hs⟩ :=
    enumSetsOf_of_elements fun entry he => (hmembers entry he).imp fun _ => And.left
  refine ⟨_, by rw [jobOf, hm, ok_bind, hp, packageText, ok_bind, hs, ok_bind], ?_⟩
  rw [Job.faults_eq_nil_iff]
  refine ⟨hpackage, ?_, fun name hn => ?_, fun entry he => ?_⟩
  · exact mt (fun e => (s.perm_sortedTypeNames.symm.trans (e ▸ .refl _)).eq_nil) hne
  · obtain ⟨text, hi, -⟩ := hnames name hn
    exact ⟨hi, has_iff_mem_keys.mpr (by rwa [keys_enumSetsOf hs, hkeys])⟩
  · obtain ⟨ms, elements, hmem, he, hset⟩ := mem_enumSetsOf hs entry he
    obtain ⟨elements', he', hi⟩ := hmembers _ hmem
    cases he.symm.trans he'
    rwa [hset, EnumSet.elements_ofElements]

theorem forall₂_filterMap {α β : Type} {f : α → Option β} {l : List α}
    (h : ∀ a ∈ l, ∃ b, f a = some b) :
    List.Forall₂ (fun a b => f a = some b) l (l.filterMap f) := by
  induction l with
  | nil => exact .nil
  | cons a rest ih =>
      rw [List.forall_mem_cons] at h
      obtain ⟨b, hb⟩ := h.1
      rw [List.filterMap_cons_some hb]
      exact .cons hb (ih h.2)

/-- **A generated file, type by type.**  It is the header and the sections of the types in the
order of their names, with an empty line in front of each. -/
theorem code_of_generate {code : String} {warnings : List Job.Warning} {summary : Summary}
    (h : generate t s = .ok (.generated code warnings summary)) :
    ∃ package sections, t.package = .str package ∧ packageFaults package = [] ∧
      s.typeNames ≠ [] ∧ List.Forall₂ (SectionOf t s) s.sortedTypeNames sections ∧
      code = headerText package s ++ String.join (sections.map ("\n" ++ ·)) := by
  obtain ⟨job, hj, hf, hcode⟩ := job_of_generate h
  obtain ⟨hpackage, hne, hnames, hconstants⟩ := Job.faults_eq_nil_iff.mp hf
  obtain ⟨htypes, hcommand, hp⟩ := fields_of_jobOf hj
  have hgroups := groups_of_jobOf hj
  have hsets : ∀ name ∈ job.typeNames, ∃ set, get? name job.enumSets = some set :=
    fun name hn => Option.isSome_iff_exists.mp (hnames name hn).2
  refine ⟨job.package, job.sets.map fun set => tidy (textOfLines (job.sectionLines set)), hp,
    hpackage, ?_, ?_, ?_⟩
  · rw [htypes] at hne
    exact fun e => hne ((e ▸ s.perm_sortedTypeNames).eq_nil)
  · rw [← htypes, List.forall₂_map_right_iff]
    refine (forall₂_filterMap hsets).imp fun name set hset => ?_
    obtain ⟨hmem, members, elements, hr, he, rfl⟩ := resolve_of_jobOf hj hset
    have hi := hconstants _ (mem_of_get? hset)
    rw [EnumSet.elements_ofElements] at hi
    rw [← htypes] at hmem
    exact ⟨(hnames name hmem).1, members, elements, hr, he, hi,
      by rw [Job.textOfLines_sectionLines, hgroups]⟩
  · have hheader : headerText job.package s = tidy (textOfLines job.headerLines) := by
      rw [headerText, Job.headerLines, Job.headerLines, hcommand, hgroups]
    rw [hcode, job.tidy_fileLines, hheader, List.map_map]
    rfl

/-- A run succeeds if and only if its package has a name that may stand in a file, some type is
asked for, and every type has a section. -/
theorem succeeds_iff : Succeeds t s ↔
    (∃ package, t.package = .str package ∧ packageFaults package = []) ∧ s.typeNames ≠ [] ∧
      ∀ name ∈ s.typeNames, ∃ text, SectionOf t s name text := by
  constructor
  · rintro ⟨code, warnings, summary, h⟩
    obtain ⟨package, sections, hp, hpackage, hne, hsections, -⟩ := code_of_generate h
    refine ⟨⟨package, hp, hpackage⟩, hne, fun name hn => ?_⟩
    obtain ⟨text, -, htext⟩ := exists_mem_of_forall₂ hsections name (mem_sortedTypeNames.mpr hn)
    exact ⟨text, htext⟩
  · rintro ⟨⟨package, hp, hpackage⟩, hne, h⟩
    obtain ⟨job, hj, hf⟩ := job_of_sections hp hpackage hne h
    obtain ⟨code, h⟩ := generate_of_job hj hf
    exact ⟨code, job.warnings, summaryOf job, h⟩

/-- A run over one type succeeds if and only if the package has a name that may stand in a file and
the type has a section. -/
theorem succeeds_only_iff {name : String} : Succeeds t (s.only name) ↔
    (∃ package, t.package = .str package ∧ packageFaults package = []) ∧
      ∃ text, SectionOf t s name text := by
  rw [succeeds_iff]
  refine and_congr_right fun _ => ?_
  simp [sectionOf_only]

/-- Whether a run succeeds does not depend on where its file goes. -/
theorem succeeds_output (output : Option String) :
    Succeeds t { s with output := output } ↔ Succeeds t s := by
  have hsection : ∀ name text, SectionOf t { s with output := output } name text ↔
      SectionOf t s name text :=
    fun _ _ => ⟨fun h => ⟨h.identifier, h.elements⟩, fun h => ⟨h.identifier, h.elements⟩⟩
  simp only [succeeds_iff, hsection]

/-- The section that a run over one type emits: what stands behind its header and an empty line. -/
def EmitsAlone (t : SymbolTable) (s : Settings) (package name text : String) : Prop :=
  ∃ warnings summary, generate t (s.only name) =
    .ok (.generated (headerText package (s.only name) ++ "\n" ++ text) warnings summary)

theorem EmitsAlone.unique {package name a b : String} (ha : EmitsAlone t s package name a)
    (hb : EmitsAlone t s package name b) : a = b := by
  obtain ⟨warnings, summary, ha⟩ := ha
  obtain ⟨warnings', summary', hb⟩ := hb
  have h := (generated.inj (Except.ok.inj (ha.symm.trans hb))).1
  exact (String.append_right_inj _).mp h

theorem emitsAlone_of_sectionOf {package name text : String} (hp : t.package = .str package)
    (hpackage : packageFaults package = []) (h : SectionOf t s name text) :
    EmitsAlone t s package name text := by
  obtain ⟨code, warnings, summary, hg⟩ := succeeds_only_iff.mpr ⟨⟨package, hp, hpackage⟩, text, h⟩
  obtain ⟨package', sections, hp', -, -, hsections, rfl⟩ := code_of_generate hg
  cases hp.symm.trans hp'
  -- the one section of that run is the section of the type
  rw [Settings.sortedTypeNames_only, List.forall₂_cons_left_iff] at hsections
  obtain ⟨text', rest, htext, hrest, rfl⟩ := hsections
  cases hrest
  cases (sectionOf_only.mp htext).unique h
  refine ⟨warnings, summary, ?_⟩
  rw [hg, List.map_singleton, String.join_cons, String.join_nil, String.append_empty,
    String.append_assoc]

/-! ### The order of the types -/

theorem resolveAll_typeNames (names todo : List String)
    (found : OrderedMap String (List Enum.Member)) :
    resolveAll t { s with typeNames := names } todo found = resolveAll t s todo found := by
  induction todo generalizing found with
  | nil => rfl
  | cons first rest ih =>
      rw [resolveAll, resolveAll]
      simp only [ih]
      rfl

/-- A run depends on the type names by their sorted list only. -/
theorem generate_of_perm {names : List String} (h : names.Perm s.typeNames) :
    generate t { s with typeNames := names } = generate t s := by
  have hsorted := Settings.sortedTypeNames_of_perm h
  have hcommand : { s with typeNames := names }.command = s.command := by
    rw [Settings.command, Settings.command, hsorted]
    rfl
  rw [generate, generate, attempt, attempt, jobOf, jobOf, hsorted, hcommand,
    resolveAll_typeNames]
  rfl

/-- **The types of a run do not mix.**  A run succeeds if and only if some type is asked for and
the run over each type alone succeeds.  Its file is then its header and, for each type name in
order, an empty line and the section that the run over this type alone emits.  The order in which
the types are named matters to nothing. -/
theorem generate_type_by_type (t : SymbolTable) (s : Settings) :
    (Succeeds t s ↔ s.typeNames ≠ [] ∧ ∀ name ∈ s.typeNames, Succeeds t (s.only name)) ∧
    (∀ code warnings summary, generate t s = .ok (.generated code warnings summary) →
      ∃ package names sections, t.package = .str package ∧
        names.Perm s.typeNames ∧ names.Pairwise (· ≤ ·) ∧
        List.Forall₂ (EmitsAlone t s package) names sections ∧
        code = headerText package s ++ String.join (sections.map ("\n" ++ ·))) ∧
    ∀ names, names.Perm s.typeNames → generate t { s with typeNames := names } = generate t s := by
  refine ⟨?_, ?_, fun names => generate_of_perm⟩
  · simp only [succeeds_only_iff]
    rw [succeeds_iff]
    constructor
    · exact fun ⟨hp, hne, h⟩ => ⟨hne, fun name hn => ⟨hp, h name hn⟩⟩
    · rintro ⟨hne, h⟩
      obtain ⟨name, hn⟩ := List.exists_mem_of_ne_nil _ hne
      exact ⟨(h name hn).1, hne, fun name hn => (h name hn).2⟩
  · intro code warnings summary h
    obtain ⟨package, sections, hp, hpackage, -, hsections, hcode⟩ := code_of_generate h
    exact ⟨package, s.sortedTypeNames, sections, hp, s.perm_sortedTypeNames,
      s.pairwise_sortedTypeNames,
      hsections.imp fun _ _ => emitsAlone_of_sectionOf hp hpackage, hcode⟩

/-- Settings that ask for the type of the table twice. -/
def twiceSettings : Settings := { pairSettings with typeNames := ["T", "T"] }

/-- Asked for twice, the type has its section twice in the file. -/
theorem generate_twiceSettings : ∃ code warnings summary text,
    generate pairTable twiceSettings = .ok (.generated code warnings summary) ∧
      EmitsAlone pairTable twiceSettings "p" "T" text ∧
      code = headerText "p" twiceSettings ++ ("\n" ++ text ++ ("\n" ++ text)) := by
  obtain ⟨hiff, hcode, -⟩ := generate_type_by_type pairTable twiceSettings
  obtain ⟨code, warnings, summary, h⟩ := hiff.mpr ⟨List.cons_ne_nil _ _, fun name hn => by
    rw [show name = "T" by simpa [twiceSettings] using hn]
    exact generate_pairTable⟩
  obtain ⟨package, names, sections, hp, hperm, -, hsections, rfl⟩ := hcode code warnings summary h
  cases hp
  have hnames : names = List.replicate 2 "T" := List.perm_replicate.mp hperm
  subst hnames
  obtain ⟨text, more, ht, hmore, rfl⟩ := List.forall₂_cons_left_iff.mp hsections
  obtain ⟨text', _, ht', hrest, rfl⟩ := List.forall₂_cons_left_iff.mp hmore
  cases hrest
  cases ht.unique ht'
  refine ⟨_, warnings, summary, text, h, ht, ?_⟩
  rw [List.map_cons, List.map_singleton, String.join_cons, String.join_cons, String.join_nil,
    String.append_empty]

end EnumHelpers.Report
