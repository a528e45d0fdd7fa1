import EnumHelpers.Emission.Job
import EnumHelpers.Proofs.Emission.Section

/-!
# Proofs — the lines of a generated file

A generated file is one list of lines: those of its header and of its sections, with an empty line
between one part and the next (`code_eq_textOfLines`).  In a job whose names are words, the opening
line of a table heads the table wherever it stands in a section (`heads_sectionLines`), and it
stands in that of its type.
-/

namespace EnumHelpers.Emission
open Text

/-! ### Lines as text -/

theorem toList_textOfLines (lines : List String) :
    (textOfLines lines).toList = lines.flatMap fun line => line.toList ++ ['\n'] := by
  rw [textOfLines, String.toList_join, List.flatMap_map]
  refine List.flatMap_congr fun line _ => ?_
  simp

theorem textOfLines_append (a b : List String) :
    textOfLines (a ++ b) = textOfLines a ++ textOfLines b := by
  apply String.toList_inj.mp
  simp only [toList_textOfLines, String.toList_append, List.flatMap_append]

/-- Texts of lines with an empty line between them are the text of one list of lines. -/
theorem intercalate_textOfLines (blocks : List (List String)) :
    String.intercalate "\n" (blocks.map textOfLines) = textOfLines ([""].intercalate blocks) := by
  have hempty : textOfLines [""] = "\n" := rfl
  induction blocks with
  | nil => rfl
  | cons b rest ih =>
      cases rest with
      | nil => simp
      | cons c rest =>
          rw [List.intercalate_cons_cons, textOfLines_append, textOfLines_append, ← ih, hempty]
          simp

theorem shownLines_textOfLines (lines : List String) :
    (splitAtChar '\n' (textOfLines lines).toList).map trimEndChars = shownLines lines ++ [[]] := by
  have h : (textOfLines lines).toList = (lines.map String.toList).flatMap (· ++ ['\n']) := by
    rw [toList_textOfLines, List.flatMap_map]
  rw [h, splitAtChar_flatMap, List.map_append, List.flatMap_map, List.map_flatMap]
  rfl

end EnumHelpers.Emission

namespace EnumHelpers.Job
open Emission OrderedMap Text

/-- The sets of the types of a job, in the order of the type names. -/
def sets (job : Job) : List EnumSet :=
  job.typeNames.filterMap fun name => get? name job.enumSets

/-- The lines of the section of a set. -/
def sectionLines (job : Job) (s : EnumSet) : List String :=
  [""].intercalate (sectionBlocks job.groups s)

/-- The lines of the generated file, before it is tidied. -/
def fileLines (job : Job) : List String :=
  [""].intercalate (job.headerLines :: job.sets.map job.sectionLines)

theorem textOfLines_sectionLines (job : Job) (s : EnumSet) :
    textOfLines (job.sectionLines s) = sectionText job.groups s := by
  rw [sectionText, textOfBlocks, intercalate_textOfLines, sectionLines]

theorem sections_eq (job : Job) : job.sections = (job.sets.map job.sectionLines).map textOfLines := by
  rw [sections, List.map_map]
  exact List.map_congr_left fun s _ => (job.textOfLines_sectionLines s).symm

/-- A generated file is the text of its lines, and its job has no faults. -/
theorem code_eq_textOfLines {job : Job} {code : String} (h : job.code = .ok code) :
    job.faults = [] ∧ code = textOfLines job.fileLines := by
  rw [Job.code] at h
  split at h
  · rename_i hf
    cases h
    refine ⟨List.isEmpty_iff.mp hf, ?_⟩
    rw [sections_eq, ← List.map_cons, intercalate_textOfLines]
    rfl
  · cases h

/-- Every set of a job is that of elements whose names are words, as the name of its type is. -/
def Worded (job : Job) : Prop :=
  ∀ t s, get? t job.enumSets = some s →
    IsWord t ∧ s = EnumSet.ofElements t s.elements ∧ ∀ e ∈ s.elements, IsWord e.name

variable {job : Job} {t : String} {s : EnumSet}

theorem mem_sets (hm : t ∈ job.typeNames) (h : get? t job.enumSets = some s) : s ∈ job.sets :=
  List.mem_filterMap.mpr ⟨t, hm, h⟩

/-- The opening line of a table heads the table in the section of every set. -/
theorem heads_sectionLines (hj : job.Worded) (h : get? t job.enumSets = some s) (k : Table) :
    ∀ b ∈ job.sets.map job.sectionLines,
      Heads (k.opening t).toList (k.body s) (shownLines b) := by
  intro b hb
  obtain ⟨s', hs', rfl⟩ := List.mem_map.mp hb
  obtain ⟨t', -, h'⟩ := List.mem_filterMap.mp hs'
  obtain ⟨ht, hs, -⟩ := hj t s h
  obtain ⟨ht', hs', hn⟩ := hj t' s' h'
  rw [hs, hs']
  refine heads_section ht ht' (fun e he => (hn e he).oneLine) (fun e => ?_) k
  subst e
  rw [Option.some.inj (h.symm.trans h')]

/-- The opening line of a table stands in the section of its type. -/
theorem opening_mem_sectionLines (hj : job.Worded) (h : get? t job.enumSets = some s) (k : Table) :
    (k.opening t).toList ∈ shownLines (job.sectionLines s) := by
  obtain ⟨ht, hs, hn⟩ := hj t s h
  have hmem := opening_mem_section job.groups ht (fun e he => (hn e he).oneLine) k
  rwa [← hs] at hmem

theorem oneLine_imports (groups : List MethodGroup) : ∀ path ∈ imports groups, OneLine path := by
  have optional : ∀ (b : Bool) {path : String}, OneLine path →
      ∀ p ∈ (if b = true then [path] else []), OneLine p := by
    intro b path h p hp
    cases b
    · cases hp
    · exact List.mem_singleton.mp hp ▸ h
  simp only [imports, List.forall_mem_append]
  refine ⟨⟨⟨optional _ (oneLine_ofList rfl), fun p hp => ?_⟩, optional _ (oneLine_ofList rfl)⟩,
    optional _ (oneLine_ofList rfl)⟩
  exact List.mem_singleton.mp hp ▸ oneLine_ofList rfl

/-- When the package name lies on one line, no line of the header from the package clause on opens
a table. -/
theorem innerLine_clauseLines (hp : OneLine job.package) :
    ∀ line ∈ job.headerLines.drop 3, InnerLine line := by
  have hlines : job.headerLines.drop 3 = ["package " ++ job.package, "", "import ("] ++
      (imports job.groups).map (fun path => "\t\"" ++ path ++ "\"") ++ [")"] := rfl
  simp only [hlines, List.forall_mem_append, List.forall_mem_cons, List.forall_mem_map]
  refine ⟨⟨⟨innerLine_ofList_append rfl rfl hp, innerLine_empty, innerLine_ofList rfl rfl, ?_⟩,
    fun path hpath => ?_⟩, innerLine_ofList rfl rfl, ?_⟩
  · exact fun _ h => absurd h List.not_mem_nil
  · rw [String.append_assoc]
    exact innerLine_ofList_append rfl rfl
      ((oneLine_imports _ path hpath).append (oneLine_ofList rfl))
  · exact fun _ h => absurd h List.not_mem_nil

theorem innerLine_commandLine {command : String} (hc : OneLine command) :
    InnerLine ("// Command: " ++ command) := innerLine_ofList_append rfl rfl hc

/-- When the command and the package name lie on one line, no line of the header opens a table. -/
theorem innerLine_headerLines (hc : OneLine job.command) (hp : OneLine job.package) :
    ∀ line ∈ job.headerLines, InnerLine line := by
  rw [← List.take_append_drop 3 job.headerLines, List.forall_mem_append]
  refine ⟨?_, innerLine_clauseLines hp⟩
  have htop : job.headerLines.take 3 =
      ["// Code generated by enumer; DO NOT EDIT.", "// Command: " ++ job.command, ""] := rfl
  simp only [htop, List.forall_mem_cons]
  exact ⟨innerLine_ofList rfl rfl, innerLine_commandLine hc, innerLine_empty,
    fun _ h => absurd h List.not_mem_nil⟩

theorem allFull_body (hj : job.Worded) (h : get? t job.enumSets = some s) (k : Table) :
    AllFull (k.body s) := by
  obtain ⟨-, hs, hn⟩ := hj t s h
  intro line hl
  rcases List.mem_append.mp hl with hl | hl
  · obtain ⟨text, ht, rfl⟩ := List.mem_map.mp hl
    rw [hs] at ht
    obtain ⟨entry, -, rfl⟩ := isEntry_of_mem_entries (fun e he => (hn e he).oneLine) k text ht
    simp
  · rw [List.mem_singleton.mp hl]
    exact List.cons_ne_nil _ _

end EnumHelpers.Job
