import EnumHelpers.Proofs.Emission.Declared
import EnumHelpers.Proofs.Emission.Separation
import Mathlib.Data.List.Nodup
import Mathlib.Data.List.Pairwise

/-!
# Proofs — when the declared names are distinct

A name that a section declares is that of its type with something before and behind it, so it tells
the type when it is known what was declared.  What was declared does not always show: one of the
endings ends as another does, and the low line in front may belong to a type.  Two declarations
*clash* when their names are the same for types of which one has the name of the other in it.

* `clash_of_name_eq`: declarations of different kinds have one name only when they clash.
* `nodup_names_iff`: when the names of some declarations for some types are distinct.
* `declaredNames_eq_names`: the names that a job declares.
* `nodup_declaredNames_iff`: when they are distinct.
-/

namespace EnumHelpers.Emission
open Text OrderedMap

variable {d d' : Declaration} {t u : String} {groups : List MethodGroup}

/-! ### Names of two kinds -/

/-- What stands before the name of the type in the name of a declaration. -/
def Declaration.front : Declaration → List Char
  | .table _ => ['_']
  | .lister | .reader => []

/-- What stands behind the name of the type in the name of a declaration. -/
def Declaration.back : Declaration → List Char
  | .table k => k.suffix
  | .lister => ['V', 'a', 'l', 'u', 'e', 's']
  | .reader => ['S', 't', 'r', 'i', 'n', 'g']

theorem toList_name (d : Declaration) (t : String) :
    (d.name t).toList = d.front ++ t.toList ++ d.back := by
  cases d <;> simp [Declaration.name, Declaration.front, Declaration.back]

/-- The name of a declaration tells the type. -/
theorem name_inj (h : d.name t = d.name u) : t = u := by
  rw [← String.toList_inj, toList_name, toList_name] at h
  exact String.toList_inj.mp (List.append_cancel_left (List.append_cancel_right h))

/-- Two declarations for different types have the same name, as the name of one type has in it what
is put before or behind the other. -/
inductive Clash : Declaration → String → Declaration → String → Prop
  | maps (t : String) :
      Clash (.table .stringToValue) t (.table .valueToString) (t ++ "NameToValue")
  | lists (t : String) : Clash (.table .values) t .lister ("_" ++ t)

theorem Clash.name_eq (h : Clash d t d' u) : d.name t = d'.name u := by
  rw [← String.toList_inj, toList_name, toList_name]
  cases h
  all_goals simp [Declaration.front, Declaration.back, Table.suffix]

theorem Clash.ne (h : Clash d t d' u) : t ≠ u := by
  cases h
  all_goals simp [← String.toList_inj]

theorem back_suffix (d : Declaration) (t : String) : d.back <:+ (d.name t).toList := by
  rw [toList_name]
  exact List.suffix_append _ _

/-- Two kinds of names of which one ends as the other does. -/
theorem kinds_of_suffix (hd : d ≠ d') (h : d.back <:+ d'.back) :
    (d = .table .valueToString ∧ d' = .table .stringToValue) ∨
    (d = .table .values ∧ d' = .lister) ∨ (d = .lister ∧ d' = .table .values) := by
  revert h
  rcases d with (_ | _ | _) | _ | _ <;> rcases d' with (_ | _ | _) | _ | _
  all_goals first
    | exact absurd rfl hd
    | decide

/-- Declarations of different kinds have the same name only when they clash. -/
theorem clash_of_name_eq (h : d.name t = d'.name u) (hd : d ≠ d') :
    Clash d t d' u ∨ Clash d' u d t := by
  have hlists : ∀ {t u}, (Declaration.table .values).name t = Declaration.lister.name u →
      Clash (.table .values) t .lister u := by
    intro t u h
    obtain rfl := name_inj (h.symm.trans (Clash.lists t).name_eq)
    exact .lists t
  have hmaps : ∀ {t u}, (Declaration.table .valueToString).name t =
      (Declaration.table .stringToValue).name u →
      Clash (.table .stringToValue) u (.table .valueToString) t := by
    intro t u h
    obtain rfl := name_inj (h.trans (Clash.maps u).name_eq)
    exact .maps u
  -- of two ends of one name, one ends as the other does
  rcases List.suffix_or_suffix_of_suffix (back_suffix d t) (h ▸ back_suffix d' u) with hs | hs
  · rcases kinds_of_suffix hd hs with ⟨rfl, rfl⟩ | ⟨rfl, rfl⟩ | ⟨rfl, rfl⟩
    · exact .inr (hmaps h)
    · exact .inl (hlists h)
    · exact .inr (hlists h.symm)
  · rcases kinds_of_suffix hd.symm hs with ⟨rfl, rfl⟩ | ⟨rfl, rfl⟩ | ⟨rfl, rfl⟩
    · exact .inl (hmaps h.symm)
    · exact .inr (hlists h.symm)
    · exact .inl (hlists h)

/-! ### The names of several types -/

/-- The names of some declarations for some types are distinct when the types and the declarations
are and none clash. -/
theorem nodup_names_iff {types : List String} {ds : List Declaration} (htypes : types ≠ [])
    (hds : ds ≠ []) :
    (types.flatMap fun t => ds.map (Declaration.name t)).Nodup ↔
      types.Nodup ∧ ds.Nodup ∧
        ∀ t ∈ types, ∀ u ∈ types, ∀ d ∈ ds, ∀ d' ∈ ds, ¬ Clash d t d' u := by
  rw [List.nodup_flatMap]
  constructor
  · rintro ⟨hone, hpair⟩
    refine ⟨hpair.imp ?_, ?_, fun t ht u hu d hd d' hd' hclash => ?_⟩
    · rintro t _ hdisjoint rfl
      obtain ⟨d, hd⟩ := List.exists_mem_of_ne_nil ds hds
      exact hdisjoint (List.mem_map_of_mem hd) (List.mem_map_of_mem hd)
    · obtain ⟨t, ht⟩ := List.exists_mem_of_ne_nil types htypes
      exact (hone t ht).of_map _
    · have hsymm : Std.Symm (Function.onFun List.Disjoint fun t => ds.map (Declaration.name t)) :=
        ⟨fun _ _ h _ hu ht => h ht hu⟩
      refine hpair.forall ht hu hclash.ne (List.mem_map_of_mem hd) ?_
      rw [hclash.name_eq]
      exact List.mem_map_of_mem hd'
  · rintro ⟨hnodup, hkinds, hclash⟩
    have heq : ∀ t ∈ types, ∀ u ∈ types, ∀ d ∈ ds, ∀ d' ∈ ds, d.name t = d'.name u → d = d' := by
      intro t ht u hu d hd d' hd' h
      by_contra hne
      rcases clash_of_name_eq h hne with hc | hc
      · exact hclash t ht u hu d hd d' hd' hc
      · exact hclash u hu t ht d' hd' d hd hc
    refine ⟨fun t ht => ?_, hnodup.pairwise_of_forall_ne fun t ht u hu hne => ?_⟩
    · exact hkinds.map_on fun d hd d' hd' => heq t ht t ht d hd d' hd'
    · intro name hm hm'
      obtain ⟨d, hd, rfl⟩ := List.mem_map.mp hm
      obtain ⟨d', hd', h⟩ := List.mem_map.mp hm'
      obtain rfl := heq u hu t ht d' hd' d hd h
      exact hne (name_inj h).symm

theorem mem_flatMap_declarationsOf :
    d ∈ groups.flatMap declarationsOf ↔ .base ∈ groups ∧ (d = .lister ∨ d = .reader) := by
  have hof : ∀ g, d ∈ declarationsOf g ↔ g = .base ∧ (d = .lister ∨ d = .reader) := by
    intro g
    cases g <;> simp [declarationsOf]
  simp only [List.mem_flatMap, hof]
  exact ⟨fun ⟨_, hg, rfl, hd⟩ => ⟨hg, hd⟩, fun ⟨hg, hd⟩ => ⟨_, hg, rfl, hd⟩⟩

/-- What the groups of methods declare is distinct when the base group stands at most once. -/
theorem nodup_flatMap_declarationsOf :
    (groups.flatMap declarationsOf).Nodup ↔ groups.count .base ≤ 1 := by
  induction groups with
  | nil => simp
  | cons g rest ih =>
      by_cases hg : g = .base
      · have hdisjoint : (declarationsOf .base).Disjoint (rest.flatMap declarationsOf) ↔
            MethodGroup.base ∉ rest := by
          simp only [List.disjoint_left, mem_flatMap_declarationsOf]
          simp [declarationsOf]
        have hcount : rest.count .base ≤ 1 ∧ .base ∉ rest ↔ rest.count .base + 1 ≤ 1 := by
          rw [← List.count_eq_zero]
          omega
        rw [hg, List.flatMap_cons, List.nodup_append', ih, hdisjoint, List.count_cons_self,
          and_iff_right (by decide), hcount]
      · have hempty : declarationsOf g = [] := by
          cases g <;> first | rfl | exact absurd rfl hg
        rw [List.flatMap_cons, hempty, List.nil_append, ih, List.count_cons_of_ne hg]

theorem nodup_declarations : (declarations groups).Nodup ↔ groups.count .base ≤ 1 := by
  have htables : (Table.all.map Declaration.table).Nodup := by decide
  rw [declarations, List.nodup_append', nodup_flatMap_declarationsOf, and_iff_right htables]
  refine and_iff_left fun d hd hd' => ?_
  obtain ⟨k, -, rfl⟩ := List.mem_map.mp hd
  rcases (mem_flatMap_declarationsOf.mp hd').2 with h | h
  all_goals cases h

theorem table_mem_declarations (k : Table) : Declaration.table k ∈ declarations groups := by
  refine List.mem_append_left _ (List.mem_map_of_mem ?_)
  cases k <;> decide

theorem lister_mem_declarations : Declaration.lister ∈ declarations groups ↔ .base ∈ groups := by
  have htables : Declaration.lister ∉ Table.all.map Declaration.table := by decide
  rw [declarations, List.mem_append, or_iff_right htables, mem_flatMap_declarationsOf]
  simp

/-- Which types have names in a section that clash. -/
theorem clash_in_declarations :
    (∃ d ∈ declarations groups, ∃ d' ∈ declarations groups, Clash d t d' u) ↔
      u = t ++ "NameToValue" ∨ (.base ∈ groups ∧ u = "_" ++ t) := by
  constructor
  · rintro ⟨d, -, d', hd', hclash⟩
    cases hclash with
    | maps => exact .inl rfl
    | lists => exact .inr ⟨lister_mem_declarations.mp hd', rfl⟩
  · rintro (rfl | ⟨hbase, rfl⟩)
    · exact ⟨_, table_mem_declarations _, _, table_mem_declarations _, .maps t⟩
    · exact ⟨_, table_mem_declarations _, _, lister_mem_declarations.mpr hbase, .lists t⟩

end EnumHelpers.Emission

namespace EnumHelpers.Job
open Emission OrderedMap

/-- Every set of a job has the tables of its elements and stands under the name of its type. -/
def Filed (job : Job) : Prop :=
  ∀ entry ∈ job.enumSets, entry.2 = EnumSet.ofElements entry.1 entry.2.elements

variable {job : Job} {t : String}

/-- The jobs of runs are filed. -/
theorem filed_of_jobOf {table : SymbolTable} {settings : Settings}
    (h : Report.jobOf table settings = .ok job) : job.Filed := by
  obtain ⟨members, -, h⟩ := bind_eq_ok.mp h
  obtain ⟨package, -, h⟩ := bind_eq_ok.mp h
  obtain ⟨sets, hsets, h⟩ := bind_eq_ok.mp h
  cases h
  intro entry hentry
  obtain ⟨ms, elements, -, -, hset⟩ := Report.mem_enumSetsOf hsets entry hentry
  rw [hset, EnumSet.elements_ofElements]

theorem Filed.tabulated (h : job.Filed) : job.Tabulated := by
  intro entry hentry
  have hset := h entry hentry
  rw [hset, EnumSet.typeName_ofElements, EnumSet.elements_ofElements]

/-- A job without faults has a set for each of its types, whose constants are passed as names. -/
theorem Filed.exists_elements (hjob : job.Filed) (hfaults : job.faults = [])
    (ht : t ∈ job.typeNames) :
    ∃ elements, get? t job.enumSets = some (EnumSet.ofElements t elements) ∧
      ∀ e ∈ elements, isIdentifier e.name = true := by
  obtain ⟨-, -, htypes, hconstants⟩ := faults_eq_nil_iff.mp hfaults
  obtain ⟨s, hs⟩ := Option.isSome_iff_exists.mp (htypes t ht).2
  have hmem := mem_of_get? hs
  exact ⟨s.elements, by rw [hs, ← hjob _ hmem], hconstants _ hmem⟩

/-- A job declares what its types do, one after another. -/
theorem declaredNames_eq (job : Job) : job.declaredNames =
    job.typeNames.flatMap fun t => (get? t job.enumSets).elim [] fun s =>
      Emission.declaredNames (sectionText job.groups s) := by
  rw [declaredNames, sections, List.filterMap_eq_flatMap_toList, List.flatMap_map,
    List.flatMap_assoc]
  refine List.flatMap_congr fun t _ => ?_
  cases get? t job.enumSets <;> simp

/-- A job without faults whose types lie on one line declares the names of its types. -/
theorem Filed.declaredNames_eq_names (hjob : job.Filed) (hfaults : job.faults = [])
    (hone : ∀ t ∈ job.typeNames, OneLine t) :
    job.declaredNames =
      job.typeNames.flatMap fun t => (declarations job.groups).map (Declaration.name t) := by
  rw [declaredNames_eq]
  refine List.flatMap_congr fun t ht => ?_
  obtain ⟨elements, hset, hn⟩ := hjob.exists_elements hfaults ht
  have hword := isWord_of_isIdentifier ((faults_eq_nil_iff.mp hfaults).2.2.1 t ht).1 (hone t ht)
  rw [hset, Option.elim_some]
  exact declaredNames_section hword hn job.groups

/-- When the declared names are distinct, the types lie on one line. -/
theorem Filed.oneLine_of_nodup (hjob : job.Filed) (hfaults : job.faults = [])
    (hnodup : job.declaredNames.Nodup) : ∀ t ∈ job.typeNames, OneLine t := by
  intro t ht
  obtain ⟨elements, hset, hn⟩ := hjob.exists_elements hfaults ht
  have hid := ((faults_eq_nil_iff.mp hfaults).2.2.1 t ht).1
  rw [declaredNames_eq] at hnodup
  have hsection := (List.nodup_flatMap.mp hnodup).1 t ht
  rw [hset, Option.elim_some] at hsection
  obtain ⟨word, hword, -, rfl | rfl⟩ := exists_word_of_isIdentifier hid
  · exact hword.oneLine
  · exact absurd hsection (not_nodup_declaredNames_section hword hn _)

/-- **When the declared names are distinct.**  The variables and functions that the sections of a
job without faults declare have distinct names if and only if

* the types are distinct, and the name of none ends in a line feed;
* the base group stands at most once among the groups of methods;
* the name of no type is that of another with `NameToValue` behind it, nor, with the base group,
  that of another with a low line before it. -/
theorem nodup_declaredNames_iff (hjob : job.Filed) (hfaults : job.faults = []) :
    job.declaredNames.Nodup ↔
      job.typeNames.Nodup ∧ (∀ t ∈ job.typeNames, OneLine t) ∧ job.groups.count .base ≤ 1 ∧
        ∀ t ∈ job.typeNames, ∀ u ∈ job.typeNames,
          u ≠ t ++ "NameToValue" ∧ (.base ∈ job.groups → u ≠ "_" ++ t) := by
  by_cases hone : ∀ t ∈ job.typeNames, OneLine t
  · have hclash : ∀ t u, (u ≠ t ++ "NameToValue" ∧ (.base ∈ job.groups → u ≠ "_" ++ t)) ↔
        ∀ d ∈ declarations job.groups, ∀ d' ∈ declarations job.groups, ¬ Clash d t d' u := by
      intro t u
      have h : _ ↔ ¬ (u = t ++ "NameToValue" ∨ .base ∈ job.groups ∧ u = "_" ++ t) :=
        not_congr clash_in_declarations
      simpa using h.symm
    rw [hjob.declaredNames_eq_names hfaults hone, nodup_names_iff (faults_eq_nil_iff.mp hfaults).2.1
      (List.ne_nil_of_mem (table_mem_declarations .values)), nodup_declarations,
      and_iff_right hone]
    simp only [hclash]
  · exact iff_of_false (fun hnodup => hone (hjob.oneLine_of_nodup hfaults hnodup))
      fun h => hone h.2.1

/-- A job over some types, each with one constant. -/
def jobOver (types : List String) : Job :=
  ⟨"p", types, types.map fun t => (t, EnumSet.ofElements t [⟨t ++ "One", 1, "one"⟩]),
    [.base, .json], "enumer"⟩

theorem filed_jobOver (types : List String) : (jobOver types).Filed := by
  intro entry hentry
  obtain ⟨t, -, rfl⟩ := List.mem_map.mp hentry
  rfl

/-- Types whose names have the parts of one another in them, and yet do not clash. -/
theorem nodup_declaredNames_jobOver :
    (jobOver ["A", "A_", "AValues", "NameToValueA"]).faults = [] ∧
      (jobOver ["A", "A_", "AValues", "NameToValueA"]).declaredNames.Nodup := by
  have hfaults : (jobOver ["A", "A_", "AValues", "NameToValueA"]).faults = [] := by decide +kernel
  refine ⟨hfaults, (nodup_declaredNames_iff (filed_jobOver _) hfaults).mpr
    ⟨by decide, ?_, by decide, by decide +kernel⟩⟩
  simp [jobOver, OneLine]

/-- Two jobs without faults over distinct types in which a name is declared twice. -/
theorem declared_twice :
    ((jobOver ["A", "_A"]).faults = [] ∧ (jobOver ["A", "_A"]).typeNames.Nodup ∧
      (jobOver ["A", "_A"]).declaredNames.count "_AValues" = 2) ∧
    (jobOver ["A", "ANameToValue"]).faults = [] ∧ (jobOver ["A", "ANameToValue"]).typeNames.Nodup ∧
      (jobOver ["A", "ANameToValue"]).declaredNames.count "_ANameToValueMap" = 2 := by
  have hnames : ∀ types : List String, (∀ t ∈ types, OneLine t) → (jobOver types).faults = [] →
      (jobOver types).declaredNames =
        types.flatMap fun t => (declarations [.base, .json]).map (Declaration.name t) :=
    fun types h hfaults => (filed_jobOver types).declaredNames_eq_names hfaults h
  have hfirst : (jobOver ["A", "_A"]).faults = [] := by decide +kernel
  have hsecond : (jobOver ["A", "ANameToValue"]).faults = [] := by decide +kernel
  refine ⟨⟨hfirst, by decide, ?_⟩, hsecond, by decide, ?_⟩
  · rw [hnames _ (by simp [OneLine]) hfirst]
    decide +kernel
  · rw [hnames _ (by simp [OneLine]) hsecond]
    decide +kernel

end EnumHelpers.Job
