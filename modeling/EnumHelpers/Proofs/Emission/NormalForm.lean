import EnumHelpers.Proofs.Emission.Layout
import Mathlib.Data.List.Chain

/-!
# Proofs — the layout as a normal form

Lines are *laid out* when none ends in blanks, no two empty ones stand side by side, and neither the
first nor the last is empty; there may be none at all.  Tidying lays out the lines of every text
(`laidOut_tidyLines`), and leaves lines that are laid out as they are (`tidyLines_joinLines`), so
that a second time it changes nothing.

Of the lines that show something none is lost and none is moved: each loses the blanks at its end
and nothing else (`shownOf_tidy`).

* `tidy_normalForm`: what the tidied text looks like, and what it keeps.
-/

namespace EnumHelpers.Emission
open Text

/-- Whether a line shows nothing. -/
def isBlankLine (line : Line) : Bool := line.all isBlank

/-- The lines of a text that show something. -/
def shownOf (text : String) : List Line := (linesOf text).filter fun line => !isBlankLine line

/-- The lines of a text that ends in a line feed: nothing stands behind the last line feed. -/
def closedLines (text : String) : List Line := (linesOf text).dropLast

/-- A line ends in no blank. -/
def EndsShown (line : Line) : Prop := ∀ c, line.getLast? = some c → isBlank c = false

/-- What is kept of a line is the line without blanks at its end. -/
def OnlyEndLost (line kept : Line) : Prop := ∃ blanks, line = kept ++ blanks ∧ isBlankLine blanks

/-- Lines in the layout. -/
structure LaidOut (lines : List Line) : Prop where
  ends : ∀ line ∈ lines, EndsShown line
  apart : lines.IsChain fun line next => line = [] → next ≠ []
  outer : lines = [] ∨ Framed lines

variable {line : Line} {lines : List Line} {text : String}

/-! ### Lines that end in no blank -/

theorem isBlankLine_iff : isBlankLine line = true ↔ ∀ c ∈ line, isBlank c = true :=
  List.all_eq_true

theorem endsShown_trimEndChars (line : Line) : EndsShown (trimEndChars line) :=
  fun _ => isBlank_of_getLast?_trimEndChars

theorem EndsShown.trimEndChars_eq (h : EndsShown line) : trimEndChars line = line := by
  cases hlast : line.getLast? with
  | none =>
      rw [List.getLast?_eq_none_iff.mp hlast]
      rfl
  | some c =>
      obtain ⟨front, rfl⟩ := List.getLast?_eq_some_iff.mp hlast
      exact trimEndChars_append front (h c hlast)

/-- A line that ends in no blank shows something, unless it is empty. -/
theorem EndsShown.isBlankLine_iff (h : EndsShown line) : isBlankLine line = true ↔ line = [] := by
  rw [Emission.isBlankLine_iff, ← trimEndChars_eq_nil, h.trimEndChars_eq]

theorem onlyEndLost_trimEndChars (line : Line) : OnlyEndLost line (trimEndChars line) := by
  obtain ⟨blanks, hline, hblank⟩ := exists_trimEndChars_append line
  exact ⟨blanks, hline.symm, isBlankLine_iff.mpr hblank⟩

theorem isBlankLine_trimEndChars (line : Line) :
    isBlankLine (trimEndChars line) = isBlankLine line := by
  rw [Bool.eq_iff_iff, (endsShown_trimEndChars line).isBlankLine_iff, trimEndChars_eq_nil,
    isBlankLine_iff]

/-! ### Tidied lines are laid out -/

/-- After cutting, an empty line is followed by a full one; the first line is full as well if the
line before it is empty. -/
theorem apart_squeeze (b : Bool) (lines : List Line) :
    (b = true → (squeeze b lines).head? ≠ some []) ∧
      (squeeze b lines).IsChain fun line next => line = [] → next ≠ [] := by
  induction lines generalizing b with
  | nil => exact ⟨fun _ => nofun, .nil⟩
  | cons line rest ih =>
      by_cases hl : line = []
      · subst hl
        obtain ⟨hhead, hchain⟩ := ih true
        cases b with
        | true => exact ⟨fun _ => hhead rfl, hchain⟩
        | false =>
            refine ⟨nofun, List.isChain_cons.mpr ⟨fun next hnext _ => ?_, hchain⟩⟩
            rintro rfl
            exact hhead rfl hnext
      · rw [squeeze_cons_full b hl]
        exact ⟨fun _ => by simpa using hl,
          List.isChain_cons.mpr ⟨fun _ _ h => absurd h hl, (ih false).2⟩⟩

/-- Lines without the empty ones at both ends begin and end with full ones, if any are left. -/
theorem framed_dropOuterEmpty (lines : List Line) :
    dropOuterEmpty lines = [] ∨ Framed (dropOuterEmpty lines) := by
  have hfull : ∀ (xs : List Line) (line : Line), (xs.dropWhile List.isEmpty).head? = some line →
      line ≠ [] := by
    intro xs line h
    have hhead := List.head?_dropWhile_not List.isEmpty xs
    rw [h] at hhead
    simpa using hhead
  obtain ⟨after, hinner⟩ :
      ∃ after, lines.dropWhile List.isEmpty = dropOuterEmpty lines ++ after := by
    refine ⟨((lines.dropWhile List.isEmpty).reverse.takeWhile List.isEmpty).reverse, ?_⟩
    rw [dropOuterEmpty, ← List.reverse_append, List.takeWhile_append_dropWhile,
      List.reverse_reverse]
  by_cases hnil : dropOuterEmpty lines = []
  · exact .inl hnil
  · obtain ⟨first, rest, hfirst⟩ := List.exists_cons_of_ne_nil hnil
    obtain ⟨before, last, hlast⟩ := (List.eq_nil_or_concat' _).resolve_left hnil
    refine .inr ⟨⟨first, rest, hfirst, ?_⟩, ⟨before, last, hlast, ?_⟩⟩
    · refine hfull lines first ?_
      rw [hinner, hfirst]
      rfl
    · refine hfull (lines.dropWhile List.isEmpty).reverse last ?_
      rw [← List.getLast?_reverse, ← dropOuterEmpty, hlast, List.getLast?_concat]

theorem laidOut_tidyLines (cs : List Char) : LaidOut (tidyLines cs) where
  ends line hline := by
    obtain ⟨piece, -, rfl⟩ := List.mem_map.mp (mem_squeeze (mem_dropOuterEmpty hline))
    exact endsShown_trimEndChars piece
  apart := by
    obtain ⟨before, after, hlines, -, -⟩ :=
      dropOuterEmpty_spec (squeeze false ((splitAtChar '\n' cs).map trimEndChars))
    have hchain := (apart_squeeze false ((splitAtChar '\n' cs).map trimEndChars)).2
    exact hchain.infix ⟨before, after, by rw [List.append_assoc]; exact hlines.symm⟩
  outer := framed_dropOuterEmpty _

/-! ### Lines that are laid out stay as they are -/

theorem squeeze_of_apart {b : Bool} (hhead : b = true → lines.head? ≠ some [])
    (h : lines.IsChain fun line next => line = [] → next ≠ []) : squeeze b lines = lines := by
  induction lines generalizing b with
  | nil => rfl
  | cons line rest ih =>
      obtain ⟨hnext, hrest⟩ := List.isChain_cons.mp h
      by_cases hl : line = []
      · subst hl
        have hb : b = false := Bool.eq_false_iff.mpr fun hb => hhead hb rfl
        have hfull : rest.head? ≠ some [] := fun hempty => hnext [] hempty rfl rfl
        rw [hb, squeeze, if_pos List.isEmpty_nil, if_neg Bool.false_ne_true,
          ih (fun _ => hfull) hrest]
      · rw [squeeze_cons_full b hl, ih (fun hb => absurd hb Bool.false_ne_true) hrest]

/-- **The layout is kept.**  The text of lines that are laid out has these lines in the layout. -/
theorem tidyLines_joinLines (h : LaidOut lines) (hbreak : ∀ line ∈ lines, '\n' ∉ line) :
    tidyLines (joinLines lines) = lines := by
  rcases h.outer with rfl | hframed
  · rfl
  · have hsplit : splitAtChar '\n' (joinLines lines) = lines ++ [[]] := by
      rw [joinLines, splitAtChar_append, splitAtChar_intercalate hframed.ne_nil hbreak]
      rfl
    have htrim : lines.map trimEndChars = lines :=
      (List.map_congr_left fun line hline => (h.ends line hline).trimEndChars_eq).trans
        (List.map_id' lines)
    rw [tidyLines, hsplit, List.map_append, htrim, hframed.squeeze_append,
      squeeze_of_apart (fun hb => absurd hb Bool.false_ne_true) h.apart]
    exact hframed.dropOuterEmpty

theorem tidy_tidy (text : String) : tidy (tidy text) = tidy text := by
  have hlines := tidyLines_joinLines (laidOut_tidyLines text.toList)
    fun _ => lineFeed_notMem_of_mem_tidyLines
  rw [tidy, tidy, String.toList_ofList, hlines]

/-! ### The tidied text -/

/-- The lines of a tidied text are those in the layout; where these are none, one empty line is
left. -/
theorem closedLines_tidy (text : String) :
    closedLines (tidy text) =
      if tidyLines text.toList = [] then [[]] else tidyLines text.toList := by
  rw [closedLines]
  split
  · rename_i hnil
    rw [linesOf, tidy, hnil]
    rfl
  · rename_i hne
    rw [linesOf_tidy hne, List.dropLast_concat]

/-- The lines of a tidied text that show something are those in the layout that do. -/
theorem shownOf_tidy_eq_filter (text : String) :
    shownOf (tidy text) = (tidyLines text.toList).filter fun line => !isBlankLine line := by
  by_cases hnil : tidyLines text.toList = []
  · rw [shownOf, linesOf, tidy, hnil]
    rfl
  · rw [shownOf, linesOf_tidy hnil, List.filter_append]
    exact List.append_nil _

/-- The lines that show something lose the blanks at their ends. -/
theorem shownOf_tidy (text : String) : shownOf (tidy text) = (shownOf text).map trimEndChars := by
  rw [shownOf_tidy_eq_filter, tidyLines, ← List.filterMap_eq_filter, filterMap_dropOuterEmpty rfl,
    filterMap_squeeze rfl, List.filterMap_eq_filter, List.filter_map, shownOf, linesOf]
  refine congrArg _ (List.filter_congr fun line _ => ?_)
  rw [Function.comp_apply, isBlankLine_trimEndChars]

/-- A text none of whose lines shows anything is blank. -/
theorem isBlankLine_of_shownOf (h : shownOf text = []) : isBlankLine text.toList = true := by
  obtain ⟨first, rest, hsplit, hcs⟩ := exists_splitAtChar_eq_cons '\n' text.toList
  have hlines : ∀ line ∈ first :: rest, isBlankLine line = true := by
    intro line hline
    have hnot := List.filter_eq_nil_iff.mp h line (by rw [linesOf, hsplit]; exact hline)
    simpa using hnot
  rw [isBlankLine_iff, hcs]
  intro c hc
  rcases List.mem_append.mp hc with hc | hc
  · exact isBlankLine_iff.mp (hlines first List.mem_cons_self) c hc
  · obtain ⟨line, hline, hc⟩ := List.mem_flatMap.mp hc
    rcases List.mem_cons.mp hc with rfl | hc
    · decide
    · exact isBlankLine_iff.mp (hlines line (List.mem_cons_of_mem first hline)) c hc

/-- A tidied text ends in one line feed. -/
theorem exists_tidy_eq_append (text : String) :
    ∃ body, (tidy text).toList = body ++ ['\n'] ∧ body.getLast? ≠ some '\n' := by
  rcases (laidOut_tidyLines text.toList).outer with hnil | hframed
  · refine ⟨[], ?_, nofun⟩
    rw [tidy, String.toList_ofList, hnil]
    rfl
  · obtain ⟨before, line, hlines, hline⟩ := hframed.last
    refine ⟨before.flatMap (· ++ ['\n']) ++ line, ?_, ?_⟩
    · rw [tidy, String.toList_ofList, joinLines_eq_flatMap hframed.ne_nil, hlines,
        List.flatMap_append]
      simp
    · rw [List.getLast?_append_of_ne_nil _ hline]
      intro hbreak
      have hmem : line ∈ tidyLines text.toList := by simp [hlines]
      exact lineFeed_notMem_of_mem_tidyLines hmem (List.mem_of_getLast? hbreak)

theorem endsShown_of_mem_closedLines (h : line ∈ closedLines (tidy text)) : EndsShown line := by
  rw [closedLines_tidy] at h
  split at h
  · rw [List.mem_singleton.mp h]
    exact nofun
  · exact (laidOut_tidyLines _).ends line h

theorem apart_closedLines (text : String) : (closedLines (tidy text)).IsChain fun line next =>
    ¬ (isBlankLine line = true ∧ isBlankLine next = true) := by
  have hlaid := laidOut_tidyLines text.toList
  rw [closedLines_tidy]
  split
  · exact List.IsChain.singleton _
  · refine hlaid.apart.imp_of_mem_imp fun line next hline hnext hapart => ?_
    rw [(hlaid.ends line hline).isBlankLine_iff, (hlaid.ends next hnext).isBlankLine_iff]
    exact fun h => hapart h.1 h.2

/-- The first line is blank only where nothing is left of the text. -/
theorem isBlankLine_of_head?_closedLines (hhead : (closedLines (tidy text)).head? = some line)
    (hblank : isBlankLine line = true) : isBlankLine text.toList = true := by
  have hlaid := laidOut_tidyLines text.toList
  rw [closedLines_tidy] at hhead
  rcases hlaid.outer with hnil | hframed
  · have hshown := shownOf_tidy text
    rw [shownOf_tidy_eq_filter, hnil, List.filter_nil] at hshown
    exact isBlankLine_of_shownOf (List.map_eq_nil_iff.mp hshown.symm)
  · obtain ⟨first, rest, hlines, hfirst⟩ := hframed.first
    rw [if_neg hframed.ne_nil, hlines, List.head?_cons, Option.some_inj] at hhead
    subst hhead
    have hmem : first ∈ tidyLines text.toList := hlines ▸ List.mem_cons_self
    exact absurd ((hlaid.ends first hmem).isBlankLine_iff.mp hblank) hfirst

/-- **The tidied text is a normal form of the text.**  Tidying twice is tidying once.  No line of
the tidied text ends in a blank, no two blank lines stand side by side, the first line is blank only
if all of the text is, and the text ends in exactly one line feed.  The lines that show something
are those of the text, in their order, and each has lost nothing but blanks at its end. -/
theorem tidy_normalForm (text : String) :
    tidy (tidy text) = tidy text ∧
    (∀ line ∈ closedLines (tidy text), EndsShown line) ∧
    (closedLines (tidy text)).IsChain (fun line next => ¬ (isBlankLine line ∧ isBlankLine next)) ∧
    (∀ line, (closedLines (tidy text)).head? = some line → isBlankLine line →
      isBlankLine text.toList) ∧
    (∃ body, (tidy text).toList = body ++ ['\n'] ∧ body.getLast? ≠ some '\n') ∧
    List.Forall₂ OnlyEndLost (shownOf text) (shownOf (tidy text)) := by
  have hlost : List.Forall₂ OnlyEndLost (shownOf text) (shownOf (tidy text)) := by
    rw [shownOf_tidy, List.forall₂_map_right_iff, List.forall₂_same]
    exact fun line _ => onlyEndLost_trimEndChars line
  exact ⟨tidy_tidy text, fun _ => endsShown_of_mem_closedLines, apart_closedLines text,
    fun _ => isBlankLine_of_head?_closedLines, exists_tidy_eq_append text, hlost⟩

end EnumHelpers.Emission
