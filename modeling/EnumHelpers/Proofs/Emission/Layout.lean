import EnumHelpers.Proofs.Emission.Job

/-!
# Proofs — a layout part by part

A part of a text is *framed* when its first and its last line are not empty.  Tidying cuts runs of
empty lines and drops those at the ends, so where framed parts stand with one empty line between
them, no run goes over from one part to the next: each part is tidied by itself
(`tidy_intercalate`).

The header of a generated file is framed (`framed_headerLines`), and so is the section of every
type, whatever its names are (`framed_sectionLines`).
-/

namespace EnumHelpers.Emission
open Text

/-- Lines of which neither the first nor the last is empty. -/
structure Framed (lines : List Line) : Prop where
  first : ∃ line rest, lines = line :: rest ∧ line ≠ []
  last : ∃ before line, lines = before ++ [line] ∧ line ≠ []

variable {lines : List Line} {blocks : List (List Line)}

theorem Framed.ne_nil (h : Framed lines) : lines ≠ [] := by
  obtain ⟨line, rest, rfl, -⟩ := h.first
  exact List.cons_ne_nil _ _

/-- Framed lines with others between them are framed. -/
theorem Framed.append {more : List Line} (h : Framed lines) (between : List Line)
    (h' : Framed more) : Framed (lines ++ between ++ more) := by
  obtain ⟨line, rest, rfl, hl⟩ := h.first
  obtain ⟨before, line', rfl, hl'⟩ := h'.last
  exact ⟨⟨line, rest ++ between ++ (before ++ [line']), by simp, hl⟩,
    ⟨line :: rest ++ between ++ before, line', by simp, hl'⟩⟩

theorem Framed.intercalate (hne : blocks ≠ []) (h : ∀ b ∈ blocks, Framed b) :
    Framed ([[]].intercalate blocks) := by
  induction blocks with
  | nil => exact absurd rfl hne
  | cons b rest ih =>
      rw [List.forall_mem_cons] at h
      cases rest with
      | nil => simpa using h.1
      | cons c rest =>
          rw [List.intercalate_cons_cons]
          exact h.1.append [[]] (ih (List.cons_ne_nil _ _) h.2)

/-! ### Cutting runs of empty lines -/

/-- A full line stays, and what stands before it and behind it is cut by itself. -/
theorem squeeze_append_cons {line : Line} (hl : line ≠ []) (b : Bool) (before more : List Line) :
    squeeze b (before ++ line :: more) = squeeze b before ++ line :: squeeze false more := by
  induction before generalizing b with
  | nil => exact squeeze_cons_full b hl more
  | cons first before ih =>
      rw [List.cons_append, squeeze, squeeze]
      split
      · split
        · exact ih true
        · rw [ih true, List.cons_append]
      · rw [ih false, List.cons_append]

theorem mem_squeeze_of_ne_nil {line : Line} (hne : line ≠ []) (hm : line ∈ lines) (b : Bool) :
    line ∈ squeeze b lines := by
  obtain ⟨before, more, rfl⟩ := List.append_of_mem hm
  rw [squeeze_append_cons hne]
  exact List.mem_append_right _ List.mem_cons_self

/-- An empty last line stays, unless nothing but empty lines stands behind an empty one. -/
theorem squeeze_concat_nil (b : Bool) (lines : List Line) :
    (b = true ∧ squeeze b (lines ++ [[]]) = []) ∨
      ∃ front, squeeze b (lines ++ [[]]) = front ++ [[]] := by
  induction lines generalizing b with
  | nil =>
      cases b with
      | true => exact .inl ⟨rfl, rfl⟩
      | false => exact .inr ⟨[], rfl⟩
  | cons line rest ih =>
      by_cases hne : line = []
      · subst hne
        cases b with
        | true => exact ih true
        | false =>
            have hkept : squeeze false ([] :: rest ++ [[]]) = [] :: squeeze true (rest ++ [[]]) :=
              rfl
            rw [hkept]
            rcases ih true with ⟨-, hrest⟩ | ⟨front, hrest⟩
            · exact .inr ⟨[], by rw [hrest, List.nil_append]⟩
            · exact .inr ⟨[] :: front, by rw [hrest, List.cons_append]⟩
      · rw [List.cons_append, squeeze_cons_full b hne]
        obtain ⟨h, -⟩ | ⟨front, hrest⟩ := ih false
        · cases h
        · exact .inr ⟨line :: front, by rw [hrest, List.cons_append]⟩

theorem Framed.squeeze (h : Framed lines) (b : Bool) : Framed (squeeze b lines) := by
  constructor
  · obtain ⟨line, rest, rfl, hl⟩ := h.first
    exact ⟨line, _, squeeze_cons_full b hl rest, hl⟩
  · obtain ⟨before, line, rfl, hl⟩ := h.last
    exact ⟨Emission.squeeze b before, line, squeeze_append_cons hl b before [], hl⟩

/-- What stands behind framed lines is cut by itself. -/
theorem Framed.squeeze_append (h : Framed lines) (b : Bool) (more : List Line) :
    Emission.squeeze b (lines ++ more) =
      Emission.squeeze b lines ++ Emission.squeeze false more := by
  obtain ⟨before, line, rfl, hl⟩ := h.last
  rw [List.append_assoc, List.singleton_append, squeeze_append_cons hl, squeeze_append_cons hl,
    List.append_assoc]
  rfl

/-- An empty line in front of framed lines stays, and no run of empty lines goes on behind it. -/
theorem Framed.squeeze_cons_empty (h : Framed lines) :
    Emission.squeeze false ([] :: lines) = [] :: Emission.squeeze false lines := by
  obtain ⟨line, rest, rfl, hl⟩ := h.first
  rw [Emission.squeeze, if_pos List.isEmpty_nil, if_neg Bool.false_ne_true,
    squeeze_cons_full true hl, squeeze_cons_full false hl]

/-- Framed blocks with an empty line between them are cut one by one. -/
theorem squeeze_intercalate (h : ∀ b ∈ blocks, Framed b) :
    squeeze false ([[]].intercalate blocks) = [[]].intercalate (blocks.map (squeeze false)) := by
  induction blocks with
  | nil => rfl
  | cons b rest ih =>
      rw [List.forall_mem_cons] at h
      cases rest with
      | nil => simp
      | cons c rest =>
          have hrest : Framed ([[]].intercalate (c :: rest)) :=
            Framed.intercalate (List.cons_ne_nil _ _) h.2
          calc squeeze false ([[]].intercalate (b :: c :: rest))
              = squeeze false (b ++ [] :: [[]].intercalate (c :: rest)) := by
                rw [List.intercalate_cons_cons, List.append_assoc, List.singleton_append]
            _ = squeeze false b ++ [] :: squeeze false ([[]].intercalate (c :: rest)) := by
                rw [h.1.squeeze_append, hrest.squeeze_cons_empty]
            _ = squeeze false b ++ [[]] ++ [[]].intercalate ((c :: rest).map (squeeze false)) := by
                rw [ih h.2, List.append_assoc, List.singleton_append]
            _ = [[]].intercalate ((b :: c :: rest).map (squeeze false)) := by
                rw [List.map_cons, List.map_cons, List.map_cons, List.intercalate_cons_cons]

/-- Framed lines lose only the empty line behind them. -/
theorem Framed.dropOuterEmpty (h : Framed lines) : dropOuterEmpty (lines ++ [[]]) = lines := by
  obtain ⟨line, rest, hfirst, hl⟩ := h.first
  obtain ⟨before, line', hlast, hl'⟩ := h.last
  have hfront : (lines ++ [[]]).dropWhile List.isEmpty = lines ++ [[]] := by
    rw [hfirst, List.cons_append, List.dropWhile_cons_of_neg (by simpa using hl)]
  have hback : lines.reverse.dropWhile List.isEmpty = lines.reverse := by
    rw [hlast, List.reverse_concat, List.dropWhile_cons_of_neg (by simpa using hl')]
  rw [Emission.dropOuterEmpty, hfront, List.reverse_concat, List.dropWhile_cons_of_pos rfl, hback,
    List.reverse_reverse]

/-! ### Tidying -/

theorem flatMap_intercalate {α β : Type} (f : α → List β) (sep : List α) (parts : List (List α)) :
    (sep.intercalate parts).flatMap f =
      (sep.flatMap f).intercalate (parts.map fun part => part.flatMap f) := by
  induction parts with
  | nil => rfl
  | cons part rest ih =>
      cases rest with
      | nil => simp
      | cons next rest =>
          rw [List.intercalate_cons_cons, List.flatMap_append, List.flatMap_append, ih,
            List.map_cons, List.map_cons, List.map_cons, List.intercalate_cons_cons]

theorem shownLines_intercalate (blocks : List (List String)) :
    shownLines ([""].intercalate blocks) = [[]].intercalate (blocks.map shownLines) :=
  flatMap_intercalate _ [""] blocks

theorem joinLines_eq_flatMap (hne : lines ≠ []) :
    joinLines lines = lines.flatMap (· ++ ['\n']) := by
  induction lines with
  | nil => exact absurd rfl hne
  | cons line rest ih =>
      cases rest with
      | nil => simp [joinLines]
      | cons next rest =>
          have hrest := ih (List.cons_ne_nil _ _)
          rw [joinLines] at hrest ⊢
          rw [List.intercalate_cons_cons, List.append_assoc, hrest]
          rfl

/-- The lines of a framed text are tidied by cutting the runs of empty ones. -/
theorem tidyLines_textOfLines {lines : List String} (h : Framed (shownLines lines)) :
    tidyLines (textOfLines lines).toList = squeeze false (shownLines lines) := by
  rw [tidyLines, shownLines_textOfLines, h.squeeze_append,
    show squeeze false [[]] = [[]] from rfl, (h.squeeze false).dropOuterEmpty]

theorem tidy_textOfLines {lines : List String} (h : Framed (shownLines lines)) :
    (tidy (textOfLines lines)).toList =
      (squeeze false (shownLines lines)).flatMap (· ++ ['\n']) := by
  rw [tidy, String.toList_ofList, tidyLines_textOfLines h,
    joinLines_eq_flatMap (h.squeeze false).ne_nil]

/-- **Parts are tidied apart.**  Framed parts of a text with an empty line between them are tidied
one by one. -/
theorem tidy_intercalate {blocks : List (List String)} (hne : blocks ≠ [])
    (h : ∀ b ∈ blocks, Framed (shownLines b)) :
    tidy (String.intercalate "\n" (blocks.map textOfLines)) =
      String.intercalate "\n" (blocks.map fun b => tidy (textOfLines b)) := by
  have hframed : ∀ b ∈ blocks.map shownLines, Framed b := List.forall_mem_map.mpr h
  have hall : Framed (shownLines ([""].intercalate blocks)) := by
    rw [shownLines_intercalate]
    exact Framed.intercalate (mt List.map_eq_nil_iff.mp hne) hframed
  apply String.toList_inj.mp
  rw [intercalate_textOfLines, tidy_textOfLines hall, shownLines_intercalate,
    squeeze_intercalate hframed, flatMap_intercalate, String.toList_intercalate, List.map_map,
    List.map_map, List.map_map]
  refine congrArg _ (List.map_congr_left fun b hb => ?_)
  exact (tidy_textOfLines (h b hb)).symm

/-! ### The parts of a generated file -/

/-- Lines are framed when the first one begins with a character that shows and the last one ends
with one. -/
theorem framed_shownLines {lines : List String} {first last : String} {c : Char}
    (hfirst : lines.head? = some first) (hc : first.toList.head? = some c)
    (hb : isBlank c = false) (hlast : lines.getLast? = some last) (hs : Solid last) :
    Framed (shownLines lines) := by
  have hbreak : c ≠ '\n' := by
    rintro rfl
    exact absurd hb (by decide)
  have hshown : ∀ cs, trimEndChars (c :: cs) ≠ [] := by
    intro cs h
    rw [trimEndChars, List.reverse_eq_nil_iff, List.dropWhile_eq_nil_iff] at h
    rw [h c (by simp)] at hb
    cases hb
  constructor
  · obtain ⟨rest, rfl⟩ : ∃ rest, lines = first :: rest := List.head?_eq_some_iff.mp hfirst
    obtain ⟨cs, hcs⟩ := List.head?_eq_some_iff.mp hc
    rw [shownLines_cons, hcs, splitAtChar_cons, if_neg hbreak]
    exact ⟨_, _, rfl, hshown _⟩
  · obtain ⟨before, rfl⟩ : ∃ before, lines = before ++ [last] := List.getLast?_eq_some_iff.mp hlast
    refine ⟨shownLines before, last.toList, ?_, ?_⟩
    · rw [shownLines_append, shownLines_eq_map (List.forall_mem_singleton.mpr hs)]
      rfl
    · obtain ⟨-, front, d, h, -⟩ := hs
      rw [h]
      exact List.concat_ne_nil d front

theorem framed_tableLines (s : EnumSet) : Framed (shownLines (tableLines s)) := by
  have hfirst : (tableLines s).head? = some (Table.valueToString.opening s.typeName) := rfl
  have hlast : (tableLines s).getLast? = some "\x7d" := by rw [tableLines, List.getLast?_concat]
  exact framed_shownLines hfirst (Table.head?_opening _ _) (by decide) hlast solid_brace

theorem framed_groupLines (t : String) (g : MethodGroup) :
    Framed (shownLines (groupLines t g)) := by
  obtain ⟨first, hfirst, hc⟩ :
      ∃ first, (groupLines t g).head? = some first ∧ first.toList.head? = some '/' := by
    cases g
    all_goals
      refine ⟨_, rfl, ?_⟩
      simp only [String.toList_append]
      rfl
  have hlast : (groupLines t g).getLast? = some "\x7d" := by cases g <;> rfl
  exact framed_shownLines hfirst hc (by decide) hlast solid_brace

end EnumHelpers.Emission

namespace EnumHelpers.Job
open Emission

variable (job : Job)

/-- The section of a set is framed. -/
theorem framed_sectionLines (s : EnumSet) : Framed (shownLines (job.sectionLines s)) := by
  rw [sectionLines, shownLines_intercalate]
  refine Framed.intercalate (List.cons_ne_nil _ _) (List.forall_mem_map.mpr ?_)
  rw [sectionBlocks, List.forall_mem_cons]
  exact ⟨framed_tableLines s, List.forall_mem_map.mpr fun g _ => framed_groupLines s.typeName g⟩

/-- The header of a file is framed. -/
theorem framed_headerLines : Framed (shownLines job.headerLines) := by
  have hlast : job.headerLines.getLast? = some ")" := by rw [headerLines, List.getLast?_concat]
  have hs : Solid ")" := ⟨oneLine_ofList rfl, [], ')', rfl, by decide⟩
  have hfirst : job.headerLines.head? = some "// Code generated by enumer; DO NOT EDIT." := rfl
  exact framed_shownLines hfirst rfl (by decide) hlast hs

theorem framed_parts :
    ∀ b ∈ job.headerLines :: job.sets.map job.sectionLines, Framed (shownLines b) :=
  List.forall_mem_cons.mpr ⟨job.framed_headerLines,
    List.forall_mem_map.mpr fun s _ => job.framed_sectionLines s⟩

/-- The lines of a file are framed. -/
theorem framed_fileLines : Framed (shownLines job.fileLines) := by
  rw [fileLines, shownLines_intercalate]
  exact Framed.intercalate (List.cons_ne_nil _ _) (List.forall_mem_map.mpr job.framed_parts)

/-- **A tidied file is its tidied parts.**  The header and the sections of a generated file stand
one after another with an empty line between them, each as it is tidied by itself. -/
theorem tidy_fileLines :
    tidy (textOfLines job.fileLines) = tidy (textOfLines job.headerLines) ++
      String.join (job.sets.map fun s => "\n" ++ tidy (textOfLines (job.sectionLines s))) := by
  rw [fileLines, ← intercalate_textOfLines, tidy_intercalate (List.cons_ne_nil _ _) job.framed_parts,
    List.map_cons, Text.intercalate_cons_eq_join, List.map_map, List.map_map]
  rfl

end EnumHelpers.Job
