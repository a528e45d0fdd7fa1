import EnumHelpers.Emission.Layout
import EnumHelpers.Proofs.Text.Lines
import Mathlib.Data.List.DropRight

/-!
# Proofs — blocks of lines

A *block* is what stands between a line that opens it and the next closing brace.  A line *heads*
a body when the body follows wherever the line stands.

Tidying changes empty lines only, so a line that heads a body without empty lines still heads it
afterwards (`Heads.squeeze`).

* `eq_of_mem_blocksOf`: the blocks opened by a line that heads a closed body are all that body.
* `forall_blocksOf_append_iff`: a property of blocks without empty lines holds of all blocks of a
  text cut at an empty line if and only if it holds of those of both parts.
-/

namespace EnumHelpers.Emission
open Text

/-- A line of a text. -/
abbrev Line := List Char

/-- The lines of a text, cut at its line feeds. -/
def linesOf (text : String) : List Line := splitAtChar '\n' text.toList

/-- The line that closes a block. -/
def closing : Line := ['}']

/-- The blocks that a line opens. -/
def blocksOf (opening : Line) : List Line → List (List Line)
  | [] => []
  | line :: rest =>
    if line = opening then rest.takeWhile (· ≠ closing) :: blocksOf opening rest
    else blocksOf opening rest

/-- Wherever the line `opening` stands among the lines, `body` follows. -/
def Heads (opening : Line) (body : List Line) : List Line → Prop
  | [] => True
  | line :: rest => (line = opening → body <+: rest) ∧ Heads opening body rest

variable {opening : Line} {body entries lines : List Line}

/-! ### Lines that head a body -/

theorem heads_of_notMem (h : opening ∉ lines) : Heads opening body lines := by
  induction lines with
  | nil => trivial
  | cons line rest ih =>
      obtain ⟨hl, hr⟩ : opening ≠ line ∧ opening ∉ rest := by simpa using h
      exact ⟨fun e => absurd e.symm hl, ih hr⟩

theorem Heads.append {more : List Line} (h : Heads opening body lines)
    (h' : Heads opening body more) : Heads opening body (lines ++ more) := by
  induction lines with
  | nil => exact h'
  | cons line rest ih =>
      exact ⟨fun e => (h.1 e).trans (List.prefix_append rest more), ih h.2⟩

/-- A line that heads a body keeps doing so at the line's own body. -/
theorem heads_block (h : opening ∉ body) : Heads opening body (opening :: body) :=
  ⟨fun _ => List.prefix_rfl, heads_of_notMem h⟩

/-! ### Blocks -/

theorem takeWhile_closed {rest : List Line} (hc : closing ∉ entries)
    (h : entries ++ [closing] <+: rest) : rest.takeWhile (· ≠ closing) = entries := by
  obtain ⟨more, rfl⟩ := h
  have hall : ∀ l ∈ entries, decide (l ≠ closing) = true := fun l hl => by
    have hne : l ≠ closing := fun e => hc (e ▸ hl)
    simpa using hne
  rw [List.append_assoc, List.takeWhile_append_of_pos hall]
  simp

theorem eq_of_mem_blocksOf (hc : closing ∉ entries)
    (h : Heads opening (entries ++ [closing]) lines) :
    ∀ b ∈ blocksOf opening lines, b = entries := by
  induction lines with
  | nil => simp [blocksOf]
  | cons line rest ih =>
      intro b hb
      rw [blocksOf] at hb
      split at hb
      · rename_i e
        rcases List.mem_cons.mp hb with rfl | hb
        · exact takeWhile_closed hc (h.1 e)
        · exact ih h.2 b hb
      · exact ih h.2 b hb

/-- What stands between an opening line and the next closing brace is a block. -/
theorem mem_blocksOf (hc : closing ∉ entries)
    (h : opening :: (entries ++ [closing]) <:+: lines) : entries ∈ blocksOf opening lines := by
  obtain ⟨before, after, rfl⟩ := h
  induction before with
  | nil =>
      rw [List.nil_append, List.cons_append, blocksOf, if_pos rfl]
      exact List.mem_cons.mpr (.inl (takeWhile_closed hc (List.prefix_append _ after)).symm)
  | cons line before ih =>
      rw [List.cons_append, List.cons_append, blocksOf]
      split
      · exact List.mem_cons_of_mem _ ih
      · exact ih

/-- A block that goes on beyond an empty line has that line in it, on whatever it goes on. -/
theorem takeWhile_append_iff {P : List Line → Prop} (hP : ∀ b, P b → [] ∉ b)
    (rest more : List Line) :
    P ((rest ++ [] :: more).takeWhile (· ≠ closing)) ↔
      P ((rest ++ [[]]).takeWhile (· ≠ closing)) := by
  by_cases hc : closing ∈ rest
  · obtain ⟨entries, after, rfl, hentries⟩ := List.eq_append_cons_of_mem hc
    have hblock : ∀ lines : List Line,
        ((entries ++ closing :: after) ++ lines).takeWhile (· ≠ closing) = entries := fun lines =>
      takeWhile_closed hentries ⟨after ++ lines, by simp⟩
    rw [hblock, hblock]
  · have hempty : ∀ lines : List Line, [] ∈ (rest ++ [] :: lines).takeWhile (· ≠ closing) := by
      have hall : ∀ l ∈ rest, decide (l ≠ closing) = true := fun l hl =>
        decide_eq_true fun e => hc (e ▸ hl)
      intro lines
      rw [List.takeWhile_append_of_pos hall, List.takeWhile_cons_of_pos (by decide)]
      exact List.mem_append_right _ List.mem_cons_self
    exact iff_of_false (fun h => hP _ h (hempty more)) fun h => hP _ h (hempty [])

theorem forall_blocksOf_append_iff {P : List Line → Prop} (ho : opening ≠ [])
    (hP : ∀ b, P b → [] ∉ b) (front more : List Line) :
    (∀ b ∈ blocksOf opening (front ++ [] :: more), P b) ↔
      (∀ b ∈ blocksOf opening (front ++ [[]]), P b) ∧ ∀ b ∈ blocksOf opening more, P b := by
  induction front with
  | nil =>
      have hnone : blocksOf opening [[]] = [] := by rw [blocksOf, if_neg ho.symm, blocksOf]
      rw [List.nil_append, List.nil_append, hnone, blocksOf, if_neg ho.symm]
      exact (and_iff_right (List.forall_mem_nil _)).symm
  | cons line rest ih =>
      rw [List.cons_append, List.cons_append, blocksOf, blocksOf]
      split
      · rw [List.forall_mem_cons, List.forall_mem_cons, takeWhile_append_iff hP, ih, and_assoc]
      · exact ih

theorem blocksOf_eq_nil (h : opening ∉ lines) : blocksOf opening lines = [] := by
  induction lines with
  | nil => rfl
  | cons line rest ih =>
      obtain ⟨hl, hr⟩ : opening ≠ line ∧ opening ∉ rest := by simpa using h
      rw [blocksOf, if_neg hl.symm, ih hr]

/-! ### Tidying -/

/-- Lines none of which is empty. -/
def AllFull (lines : List Line) : Prop := ∀ l ∈ lines, l ≠ []

theorem squeeze_cons_full (b : Bool) {line : Line} (h : line ≠ []) (rest : List Line) :
    squeeze b (line :: rest) = line :: squeeze false rest := by
  rw [squeeze, if_neg (by simpa using h)]

theorem prefix_squeeze (hb : AllFull body) (h : body <+: lines) (b : Bool) :
    body <+: squeeze b lines := by
  induction body generalizing lines b with
  | nil => exact List.nil_prefix
  | cons line body ih =>
      obtain ⟨rest, rfl, hr⟩ : ∃ rest, lines = line :: rest ∧ body <+: rest := by
        obtain ⟨more, rfl⟩ := h
        exact ⟨body ++ more, rfl, List.prefix_append body more⟩
      rw [squeeze_cons_full b (hb line List.mem_cons_self)]
      exact List.cons_prefix_cons.mpr
        ⟨rfl, ih (fun l hl => hb l (List.mem_cons_of_mem _ hl)) hr false⟩

theorem Heads.squeeze (ho : opening ≠ []) (hb : AllFull body) (h : Heads opening body lines)
    (b : Bool) : Heads opening body (squeeze b lines) := by
  induction lines generalizing b with
  | nil => trivial
  | cons line rest ih =>
      -- an empty line may go, but it neither opens a block nor stands in one
      by_cases e : line = []
      · subst e
        rw [Emission.squeeze, if_pos List.isEmpty_nil]
        split
        · exact ih h.2 true
        · exact ⟨fun e => absurd e.symm ho, ih h.2 true⟩
      · rw [squeeze_cons_full b e]
        exact ⟨fun e => prefix_squeeze hb (h.1 e) false, ih h.2 false⟩

/-- Lines are the tidied ones with empty lines before and after. -/
theorem dropOuterEmpty_spec (lines : List Line) :
    ∃ before after, lines = before ++ (dropOuterEmpty lines ++ after) ∧
      (∀ l ∈ before, l = []) ∧ ∀ l ∈ after, l = [] := by
  let inner := lines.dropWhile List.isEmpty
  refine ⟨lines.takeWhile List.isEmpty, (inner.reverse.takeWhile List.isEmpty).reverse, ?_,
    fun l hl => by simpa using List.mem_takeWhile_imp hl,
    fun l hl => by simpa using List.mem_takeWhile_imp (List.mem_reverse.mp hl)⟩
  have h : inner = dropOuterEmpty lines ++ (inner.reverse.takeWhile List.isEmpty).reverse := by
    rw [dropOuterEmpty, ← List.reverse_append, List.takeWhile_append_dropWhile,
      List.reverse_reverse]
  rw [← h, List.takeWhile_append_dropWhile]

/-! ### The lines of a tidied text -/

theorem mem_squeeze {b : Bool} {l : Line} (h : l ∈ squeeze b lines) : l ∈ lines := by
  induction lines generalizing b with
  | nil => simp [squeeze] at h
  | cons line rest ih =>
      rw [squeeze] at h
      split at h
      · split at h
        · exact List.mem_cons_of_mem _ (ih h)
        · exact (List.mem_cons.mp h).elim (· ▸ List.mem_cons_self)
            fun h => List.mem_cons_of_mem _ (ih h)
      · exact (List.mem_cons.mp h).elim (· ▸ List.mem_cons_self)
          fun h => List.mem_cons_of_mem _ (ih h)

/-- Cutting runs of empty lines keeps whatever is read off full lines alone. -/
theorem filterMap_squeeze {β : Type} {f : Line → Option β} (hf : f [] = none) (b : Bool)
    (lines : List Line) : (squeeze b lines).filterMap f = lines.filterMap f := by
  induction lines generalizing b with
  | nil => rfl
  | cons line rest ih =>
      by_cases hl : line = []
      · subst hl
        cases b <;> simp [squeeze, ih, hf]
      · rw [squeeze_cons_full b hl, List.filterMap_cons, List.filterMap_cons, ih]

theorem filterMap_dropOuterEmpty {β : Type} {f : Line → Option β} (hf : f [] = none)
    (lines : List Line) : (dropOuterEmpty lines).filterMap f = lines.filterMap f := by
  obtain ⟨before, after, hlines, hbefore, hafter⟩ := dropOuterEmpty_spec lines
  have hsilent : ∀ {empties : List Line}, (∀ l ∈ empties, l = []) → empties.filterMap f = [] := by
    intro empties h
    exact List.filterMap_eq_nil_iff.mpr fun l hl => h l hl ▸ hf
  conv => rhs; rw [hlines]
  rw [List.filterMap_append, List.filterMap_append, hsilent hbefore, hsilent hafter,
    List.append_nil, List.nil_append]

theorem mem_dropOuterEmpty {l : Line} (h : l ∈ dropOuterEmpty lines) : l ∈ lines := by
  obtain ⟨before, after, e, -, -⟩ := dropOuterEmpty_spec lines
  rw [e]
  exact List.mem_append_right _ (List.mem_append_left _ h)

theorem lineFeed_notMem_of_mem_tidyLines {cs : List Char} {l : Line} (h : l ∈ tidyLines cs) :
    '\n' ∉ l := by
  obtain ⟨piece, hp, rfl⟩ := List.mem_map.mp (mem_squeeze (mem_dropOuterEmpty h))
  exact fun hm => notMem_of_mem_splitAtChar hp ((trimEndChars_isPrefix piece).subset hm)

/-- The lines of a tidied text are its lines in the layout, and an empty last one. -/
theorem linesOf_tidy {text : String} (hne : tidyLines text.toList ≠ []) :
    linesOf (tidy text) = tidyLines text.toList ++ [[]] := by
  rw [linesOf, tidy, String.toList_ofList, joinLines, splitAtChar_append,
    splitAtChar_intercalate hne fun l hl => lineFeed_notMem_of_mem_tidyLines hl]
  rfl

end EnumHelpers.Emission
