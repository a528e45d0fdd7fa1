import EnumHelpers.Platform.Constraint
import EnumHelpers.Proofs.Text.Lines

/-!
# Proofs — the header of a source text

The header of a source text is made of blank lines, line comments and block comments, and the first
constraint line in it counts (`Found`): the mark alone on a line, or with a blank behind it, which
nothing but blanks and complete comments precede.

What is taken for that line agrees with this in all but two things.  A mark counts even where a word
goes on behind it, and what stands on a line behind the end of a block comment is not looked at, be
it code or the opening of another comment.

* `found_cons`: what one more line in front of a header changes.
* `lineIn_cons`: what one more line changes for the line that is taken.
* `answers_lineOf_iff`: the line that is taken is the one that counts, but for lines of these kinds.
-/

namespace EnumHelpers.Constraint
open Text

/-! ### Comments on a line -/

section
-- the equations of the two functions hold whatever characters are blank
attribute [local irreducible] isBlank

/-- Whether a block comment is open behind a line, when one is or is not in front of it; none when
something else than blanks and comments stands on the line. -/
def passLine : Bool → List Char → Option Bool
  | true, '*' :: '/' :: rest => passLine false rest
  | true, _ :: rest => passLine true rest
  | false, '/' :: '/' :: _ => some false
  | false, '/' :: '*' :: rest => passLine true rest
  | false, c :: rest => if isBlank c then passLine false rest else none
  | inBlock, [] => some inBlock

/-- What stands on a line behind the end of the first block comment that ends on it. -/
def afterComment? : Bool → List Char → Option (List Char)
  | true, '*' :: '/' :: rest => some rest
  | true, _ :: rest => afterComment? true rest
  | false, '/' :: '*' :: rest => afterComment? true rest
  | false, c :: rest => if isBlank c then afterComment? false rest else none
  | _, [] => none

end

/-! ### Headers -/

/-- A line, without the blanks at its ends, is a constraint line: the mark, and behind it nothing or
a blank and a text. -/
def Marks (line : List Char) (text : String) : Prop :=
  ∃ rest, line = lineMark.toList ++ rest ∧ (∀ c, rest.head? = some c → isBlank c = true) ∧
    text = String.ofList (trimChars rest)

/-- Lines hold nothing but blanks and comments, and no block comment is open behind them. -/
def Clear (inBlock : Bool) (lines : List (List Char)) : Prop :=
  lines.foldlM passLine inBlock = some false

/-- The first constraint line that only blanks and complete comments precede has the given text. -/
def Found (inBlock : Bool) (lines : List (List Char)) (text : String) : Prop :=
  ∃ before line after, lines = before ++ line :: after ∧ Clear inBlock before ∧ Marks line text ∧
    ∀ before' line' after', before = before' ++ line' :: after' → Clear inBlock before' →
      ∀ text', ¬ Marks line' text'

/-- An answer is the text of the first constraint line in a header, none when there is no such. -/
def Answers (inBlock : Bool) (lines : List (List Char)) (answer : Option String) : Prop :=
  ∀ text, answer = some text ↔ Found inBlock lines text

variable {inBlock : Bool} {line : List Char} {before after : List (List Char)} {text : String}
  {answer : Option String}

theorem Marks.unique {text' : String} (h : Marks line text) (h' : Marks line text') :
    text = text' := by
  obtain ⟨rest, rfl, -, rfl⟩ := h
  obtain ⟨rest', heq, -, rfl⟩ := h'
  rw [List.append_cancel_left heq]

theorem clear_nil : Clear inBlock [] ↔ inBlock = false := by
  simp [Clear, pure]

theorem clear_cons :
    Clear inBlock (line :: before) ↔
      ∃ next, passLine inBlock line = some next ∧ Clear next before := by
  simp [Clear, List.foldlM_cons, Option.bind_eq_some_iff]

/-- The first line of a header is its constraint line, or is passed and the line is found behind. -/
theorem found_cons :
    Found inBlock (line :: after) text ↔
      inBlock = false ∧ Marks line text ∨
        (inBlock = false → ∀ text', ¬ Marks line text') ∧
          ∃ next, passLine inBlock line = some next ∧ Found next after text := by
  constructor
  · rintro ⟨before, line', after', heq, hclear, hmarks, hfirst⟩
    cases before with
    | nil =>
        rw [List.nil_append, List.cons.injEq] at heq
        obtain ⟨rfl, rfl⟩ := heq
        exact .inl ⟨clear_nil.mp hclear, hmarks⟩
    | cons first before =>
        rw [List.cons_append, List.cons.injEq] at heq
        obtain ⟨rfl, rfl⟩ := heq
        obtain ⟨next, hpass, hclear⟩ := clear_cons.mp hclear
        refine .inr ⟨fun hb => hfirst [] line before rfl (clear_nil.mpr hb), next, hpass, before,
          line', after', rfl, hclear, hmarks, fun before' line'' after'' hsplit hclear' => ?_⟩
        exact hfirst (line :: before') line'' after'' (by rw [hsplit]; rfl)
          (clear_cons.mpr ⟨next, hpass, hclear'⟩)
  · rintro (⟨hb, hmarks⟩ | ⟨hnot, next, hpass, before, line', after', rfl, hclear, hmarks, hfirst⟩)
    · exact ⟨[], line, after, rfl, clear_nil.mpr hb, hmarks, by simp⟩
    · refine ⟨line :: before, line', after', rfl, clear_cons.mpr ⟨next, hpass, hclear⟩, hmarks, ?_⟩
      intro before' line'' after'' hsplit hclear'
      cases before' with
      | nil =>
          rw [List.nil_append, List.cons.injEq] at hsplit
          exact hsplit.1 ▸ hnot (clear_nil.mp hclear')
      | cons first before' =>
          rw [List.cons_append, List.cons.injEq] at hsplit
          obtain ⟨rfl, hsplit⟩ := hsplit
          obtain ⟨next', hpass', hclear'⟩ := clear_cons.mp hclear'
          rw [hpass, Option.some.injEq] at hpass'
          exact hfirst before' line'' after'' hsplit (hpass' ▸ hclear')

theorem answers_nil : Answers inBlock [] none := by
  simp [Answers, Found]

theorem answers_of_marks (h : Marks line text) :
    Answers false (line :: after) answer ↔ answer = some text := by
  have hfound : ∀ text', Found false (line :: after) text' ↔ text' = text := by
    intro text'
    rw [found_cons]
    constructor
    · rintro (⟨-, h'⟩ | ⟨hnot, -⟩)
      · exact h'.unique h
      · exact absurd h (hnot rfl text)
    · rintro rfl
      exact .inl ⟨rfl, h⟩
  simp only [Answers, hfound]
  constructor
  · exact fun hall => (hall text).mpr rfl
  · rintro rfl text'
    rw [Option.some.injEq, eq_comm]

/-- A line that is passed and is no constraint line changes nothing but the comment state. -/
theorem found_of_pass {next : Bool} (hnot : inBlock = false → ∀ text', ¬ Marks line text')
    (hpass : passLine inBlock line = some next) :
    Found inBlock (line :: after) text ↔ Found next after text := by
  rw [found_cons]
  constructor
  · rintro (⟨hb, hmarks⟩ | ⟨-, next', hpass', hfound⟩)
    · exact absurd hmarks (hnot hb text)
    · rw [hpass, Option.some.injEq] at hpass'
      exact hpass' ▸ hfound
  · exact fun hfound => .inr ⟨hnot, next, hpass, hfound⟩

theorem answers_of_pass {next : Bool} (hnot : inBlock = false → ∀ text', ¬ Marks line text')
    (hpass : passLine inBlock line = some next) :
    Answers inBlock (line :: after) answer ↔ Answers next after answer :=
  forall_congr' fun _ => by rw [found_of_pass hnot hpass]

/-- Behind a line with something else than blanks and comments nothing is found. -/
theorem answers_of_code (hnot : inBlock = false → ∀ text', ¬ Marks line text')
    (hcode : passLine inBlock line = none) :
    Answers inBlock (line :: after) answer ↔ answer = none := by
  have hnone : ∀ text, ¬ Found inBlock (line :: after) text := by
    intro text hfound
    rcases found_cons.mp hfound with ⟨hb, hmarks⟩ | ⟨-, next, hpass, -⟩
    · exact hnot hb text hmarks
    · rw [hcode] at hpass
      cases hpass
  simp only [Answers, hnone, iff_false]
  exact Option.eq_none_iff_forall_ne_some.symm

/-! ### The line that is taken -/

theorem holdsWithin_eq (h : inBlock = true) :
    holdsWithin ['*', '/'] line = (afterComment? inBlock line).isSome := by
  fun_induction afterComment? inBlock line with
  | case1 rest => simp [holdsWithin]
  | case2 c rest hc ih =>
      rw [holdsWithin, ih rfl, Bool.or_eq_right_iff_imp]
      intro hprefix
      obtain ⟨more, hmore⟩ := List.isPrefixOf_iff_prefix.mp hprefix
      simp only [List.cons_append, List.nil_append, List.cons.injEq] at hmore
      exact absurd hmore.2.symm (hc more hmore.1.symm)
  | case3 | case4 | case5 => cases h
  | case6 => simp [holdsWithin]

theorem passLine_of_afterComment? {rest : List Char} (h : afterComment? inBlock line = some rest) :
    passLine inBlock line = passLine false rest := by
  fun_induction afterComment? inBlock line with
  | case1 => simp_all [passLine]
  | case2 c rest hc ih => rw [passLine, ih h]; exact hc
  | case3 rest ih => rw [passLine, ih h]
  | case4 c rest hc hb ih =>
      have hslash : c ≠ '/' := fun e => absurd (e ▸ hb) (by decide)
      rw [passLine, if_pos hb, ih h] <;> simp [hslash]
  | case5 => cases h
  | case6 => cases h

theorem passLine_true (h : inBlock = true) (hnone : afterComment? inBlock line = none) :
    passLine inBlock line = some true := by
  fun_induction afterComment? inBlock line with
  | case1 => cases hnone
  | case2 c rest hc ih => rw [passLine, ih h hnone]; exact hc
  | case3 | case4 | case5 => cases h
  | case6 => rw [passLine, h]

theorem isPrefixOf_pair {a b : Char} {cs : List Char} :
    [a, b].isPrefixOf cs = true ↔ ∃ rest, cs = a :: b :: rest := by
  rw [List.isPrefixOf_iff_prefix]
  exact exists_congr fun rest => eq_comm

/-- The comment state behind a line as it is taken: what stands behind the end of a comment is not
looked at. -/
def takenPast (inBlock : Bool) (line : List Char) : Option Bool :=
  match afterComment? inBlock line with
  | some _ => some false
  | none => passLine inBlock line

theorem takenPast_of_block (rest : List Char) :
    takenPast false ('/' :: '*' :: rest) = some (!holdsWithin ['*', '/'] rest) := by
  rw [holdsWithin_eq rfl, takenPast, afterComment?, passLine]
  cases hafter : afterComment? true rest with
  | some more => rfl
  | none => exact passLine_true rfl hafter

theorem takenPast_of_code {c : Char} {rest : List Char} (hc : isBlank c = false)
    (hline : ∀ more, c :: rest ≠ '/' :: '/' :: more)
    (hblock : ∀ more, c :: rest ≠ '/' :: '*' :: more) :
    takenPast false (c :: rest) = none := by
  have hnone : afterComment? false (c :: rest) = none := by
    rw [afterComment?, hc]
    · rfl
    · rintro more rfl rfl
      exact hblock more rfl
  rw [takenPast, hnone]
  dsimp only
  rw [passLine, hc]
  · rfl
  · rintro more rfl rfl
    exact hline more rfl
  · rintro more rfl rfl
    exact hblock more rfl

/-- A line that has no mark in front is passed, or ends the header. -/
theorem lineIn_cons (hline : ∀ c, line.head? = some c → isBlank c = false)
    (hmark : inBlock = false → ¬ lineMark.toList <+: line) :
    lineIn inBlock (line :: after) =
      (takenPast inBlock line).bind fun next => lineIn next after := by
  cases inBlock with
  | true =>
      rw [lineIn, if_pos rfl, holdsWithin_eq rfl, takenPast]
      cases hafter : afterComment? true line with
      | some rest => rfl
      | none => rw [passLine_true rfl hafter]; rfl
  | false =>
      have hnot : ¬ lineMark.toList.isPrefixOf line = true :=
        fun h => hmark rfl (List.isPrefixOf_iff_prefix.mp h)
      rw [lineIn, if_neg Bool.false_ne_true, if_neg hnot]
      cases line with
      | nil => rfl
      | cons c rest =>
          rw [if_neg (by simp)]
          by_cases hslash : ['/', '/'].isPrefixOf (c :: rest) = true
          · rw [if_pos hslash]
            obtain ⟨more, hmore⟩ := isPrefixOf_pair.mp hslash
            rw [hmore]
            rfl
          · rw [if_neg hslash]
            by_cases hblock : ['/', '*'].isPrefixOf (c :: rest) = true
            · rw [if_pos hblock]
              obtain ⟨more, hmore⟩ := isPrefixOf_pair.mp hblock
              rw [hmore, takenPast_of_block]
              rfl
            · rw [if_neg hblock, takenPast_of_code (hline c rfl)]
              · rfl
              · exact fun more h => hslash (isPrefixOf_pair.mpr ⟨more, h⟩)
              · exact fun more h => hblock (isPrefixOf_pair.mpr ⟨more, h⟩)

/-- A line with the mark in front is taken, whatever goes on behind the mark. -/
theorem lineIn_mark (rest : List Char) :
    lineIn false ((lineMark.toList ++ rest) :: after) = some (String.ofList (trimChars rest)) := by
  have hmark : lineMark.toList.isPrefixOf (lineMark.toList ++ rest) = true :=
    List.isPrefixOf_iff_prefix.mpr (List.prefix_append _ _)
  have hne : (lineMark.toList ++ rest).isEmpty = false := rfl
  rw [lineIn, if_neg Bool.false_ne_true, hne, if_neg Bool.false_ne_true, if_pos hmark,
    List.drop_left]

/-- A line with the mark in front is a comment where it is no constraint line. -/
theorem passLine_mark (rest : List Char) : passLine false (lineMark.toList ++ rest) = some false :=
  rfl

/-! ### Where the two agree -/

/-- Lines are passed in the same way by both: none has a mark in front outside comments, and where a
block comment ends on a line, only blanks and complete comments stand behind it. -/
inductive PassedAlike : Bool → List (List Char) → Bool → Prop
  | nil (inBlock : Bool) : PassedAlike inBlock [] inBlock
  | cons {inBlock next last : Bool} {line : List Char} {before : List (List Char)}
      (hmark : inBlock = false → ¬ lineMark.toList <+: line)
      (hafter : ∀ rest, afterComment? inBlock line = some rest → passLine false rest = some false)
      (hpass : passLine inBlock line = some next) (h : PassedAlike next before last) :
      PassedAlike inBlock (line :: before) last

/-- What is misread on a line, if anything, makes no difference: a word that goes on behind the
mark, code behind the end of a comment, or another comment that opens there. -/
structure Harmless (inBlock : Bool) (line : List Char) (after : List (List Char)) : Prop where
  word : ∀ c rest, inBlock = false → line = lineMark.toList ++ c :: rest → isBlank c = false →
    Answers false after (some (String.ofList (trimChars (c :: rest))))
  code : ∀ rest, afterComment? inBlock line = some rest → passLine false rest = none →
    lineIn false after = none
  opened : ∀ rest, afterComment? inBlock line = some rest → passLine false rest = some true →
    Answers true after (lineIn false after)

/-- At every line that is reached alike nothing is misread, or what is makes no difference. -/
def AllHarmless (inBlock : Bool) (lines : List (List Char)) : Prop :=
  ∀ before line after last, lines = before ++ line :: after → PassedAlike inBlock before last →
    Harmless last line after

theorem allHarmless_cons :
    AllHarmless inBlock (line :: after) ↔ Harmless inBlock line after ∧
      ((inBlock = false → ¬ lineMark.toList <+: line) →
        (∀ rest, afterComment? inBlock line = some rest → passLine false rest = some false) →
        ∀ next, passLine inBlock line = some next → AllHarmless next after) := by
  constructor
  · intro h
    refine ⟨h [] line after inBlock rfl (.nil inBlock), fun hmark hafter next hpass => ?_⟩
    intro before line' after' last hsplit hpassed
    exact h (line :: before) line' after' last (by rw [hsplit]; rfl)
      (.cons hmark hafter hpass hpassed)
  · rintro ⟨hfirst, hrest⟩ before line' after' last hsplit hpassed
    cases hpassed with
    | nil =>
        rw [List.nil_append, List.cons.injEq] at hsplit
        obtain ⟨rfl, rfl⟩ := hsplit
        exact hfirst
    | cons hmark hafter hpass hpassed =>
        rw [List.cons_append, List.cons.injEq] at hsplit
        obtain ⟨rfl, hsplit⟩ := hsplit
        exact hrest hmark hafter _ hpass _ _ _ _ hsplit hpassed

/-- A constraint line is taken, and nothing is misread up to it. -/
theorem answers_lineIn_of_marks (hmarks : Marks line text) :
    Answers false (line :: after) (lineIn false (line :: after)) ↔
      AllHarmless false (line :: after) := by
  have hanswer : Answers false (line :: after) (lineIn false (line :: after)) ↔
      lineIn false (line :: after) = some text := answers_of_marks hmarks
  obtain ⟨rest, rfl, hblank, rfl⟩ := hmarks
  refine iff_of_true (hanswer.mpr (lineIn_mark rest))
    (allHarmless_cons.mpr ⟨⟨?_, nofun, nofun⟩, ?_⟩)
  · intro c more _ heq hc
    rw [List.append_cancel_left heq, List.head?_cons] at hblank
    rw [hblank c rfl] at hc
    cases hc
  · exact fun hmark => absurd (List.prefix_append _ _) (hmark rfl)

/-- A word that goes on behind a mark is taken for a constraint, in the place of what follows. -/
theorem answers_lineIn_of_word {c : Char} {rest : List Char} (hc : isBlank c = false) :
    Answers false ((lineMark.toList ++ c :: rest) :: after)
        (lineIn false ((lineMark.toList ++ c :: rest) :: after)) ↔
      AllHarmless false ((lineMark.toList ++ c :: rest) :: after) := by
  have hnot : ∀ text, ¬ Marks (lineMark.toList ++ c :: rest) text := by
    rintro text ⟨rest', heq, hblank, -⟩
    rw [← List.append_cancel_left heq] at hblank
    rw [hblank c rfl] at hc
    cases hc
  rw [lineIn_mark, answers_of_pass (fun _ => hnot) (passLine_mark _), allHarmless_cons]
  constructor
  · refine fun h => ⟨⟨?_, nofun, nofun⟩, fun hmark => absurd (List.prefix_append _ _) (hmark rfl)⟩
    intro c' rest' _ heq _
    rwa [← List.append_cancel_left heq]
  · exact fun h => h.1.word c rest rfl rfl hc

theorem Marks.isPrefix (h : Marks line text) : lineMark.toList <+: line := by
  obtain ⟨rest, rfl, -⟩ := h
  exact List.prefix_append _ _

/-- On a line without a mark in front, on which no comment ends, nothing is misread. -/
theorem allHarmless_cons_of_noComment (hmark : inBlock = false → ¬ lineMark.toList <+: line)
    (hnone : afterComment? inBlock line = none) :
    AllHarmless inBlock (line :: after) ↔
      ∀ next, passLine inBlock line = some next → AllHarmless next after := by
  rw [allHarmless_cons]
  constructor
  · exact fun h => h.2 hmark (by simp [hnone])
  · refine fun h => ⟨⟨?_, by simp [hnone], by simp [hnone]⟩, fun _ _ => h⟩
    rintro c rest hb rfl
    exact absurd (List.prefix_append _ _) (hmark hb)

/-- On a line without a mark in front, on which a comment ends, it matters what stands behind. -/
theorem allHarmless_cons_of_comment {rest : List Char}
    (hmark : inBlock = false → ¬ lineMark.toList <+: line)
    (hafter : afterComment? inBlock line = some rest) :
    AllHarmless inBlock (line :: after) ↔
      match passLine false rest with
      | none => lineIn false after = none
      | some true => Answers true after (lineIn false after)
      | some false => AllHarmless false after := by
  have hword : ∀ c more, inBlock = false → line = lineMark.toList ++ c :: more →
      isBlank c = false → Answers false after (some (String.ofList (trimChars (c :: more)))) := by
    rintro c more hb rfl
    exact absurd (List.prefix_append _ _) (hmark hb)
  rw [allHarmless_cons, passLine_of_afterComment? hafter]
  cases hrest : passLine false rest with
  | none =>
      refine ⟨fun h => h.1.code rest hafter hrest, fun h => ⟨⟨hword, fun _ _ _ => h, ?_⟩, by simp⟩⟩
      simp [hafter, hrest]
  | some next =>
      cases next with
      | true =>
          refine ⟨fun h => h.1.opened rest hafter hrest, fun h => ⟨⟨hword, ?_, fun _ _ _ => h⟩, ?_⟩⟩
          · simp [hafter, hrest]
          · simp [hafter, hrest]
      | false =>
          refine ⟨fun h => h.2 hmark (by simp [hafter, hrest]) false rfl, fun h => ?_⟩
          refine ⟨⟨hword, ?_, ?_⟩, ?_⟩
          · simp [hafter, hrest]
          · simp [hafter, hrest]
          · rintro _ _ next ⟨⟩
            exact h

/-- A line without a mark in front is passed as it should be, or it makes no difference. -/
theorem answers_lineIn_of_noMark (hline : ∀ c, line.head? = some c → isBlank c = false)
    (hmark : inBlock = false → ¬ lineMark.toList <+: line)
    (ih : ∀ next, Answers next after (lineIn next after) ↔ AllHarmless next after) :
    Answers inBlock (line :: after) (lineIn inBlock (line :: after)) ↔
      AllHarmless inBlock (line :: after) := by
  have hnot : inBlock = false → ∀ text, ¬ Marks line text := fun hb _ h => hmark hb h.isPrefix
  rw [lineIn_cons hline hmark, takenPast]
  cases hafter : afterComment? inBlock line with
  | none =>
      rw [allHarmless_cons_of_noComment hmark hafter]
      cases hpass : passLine inBlock line with
      | none => simp [answers_of_code hnot hpass]
      | some next =>
          rw [answers_of_pass hnot hpass, Option.bind_some, ih]
          simp
  | some rest =>
      have hpass := passLine_of_afterComment? hafter
      rw [allHarmless_cons_of_comment hmark hafter]
      cases hrest : passLine false rest with
      | none => exact answers_of_code hnot (hpass.trans hrest)
      | some next =>
          rw [answers_of_pass hnot (hpass.trans hrest)]
          cases next with
          | true => exact Iff.rfl
          | false => exact ih false

/-- What is taken is right if and only if, at every line that is reached alike, nothing is misread
or it makes no difference. -/
theorem answers_lineIn_iff {lines : List (List Char)}
    (hlines : ∀ line ∈ lines, ∀ c, line.head? = some c → isBlank c = false) :
    Answers inBlock lines (lineIn inBlock lines) ↔ AllHarmless inBlock lines := by
  induction lines generalizing inBlock with
  | nil => exact iff_of_true answers_nil (by simp [AllHarmless])
  | cons line after ih =>
      rw [List.forall_mem_cons] at hlines
      by_cases hmark : inBlock = false ∧ lineMark.toList <+: line
      · obtain ⟨rfl, rest, rfl⟩ := hmark
        by_cases hblank : ∀ c, rest.head? = some c → isBlank c = true
        · exact answers_lineIn_of_marks ⟨rest, rfl, hblank, rfl⟩
        · simp only [not_forall] at hblank
          obtain ⟨c, hc, hword⟩ := hblank
          obtain ⟨more, rfl⟩ := List.head?_eq_some_iff.mp hc
          exact answers_lineIn_of_word (Bool.eq_false_iff.mpr hword)
      · rw [not_and] at hmark
        exact answers_lineIn_of_noMark hlines.1 hmark fun _ => ih hlines.2

/-- The lines of a source text, without the blanks at their ends. -/
def headerLines (source : String) : List (List Char) :=
  (lines source).map fun line => trimChars line.toList

/-- **The constraint line of a source text.**  The text that is taken for the constraint is that of
the first constraint line that only blanks and complete comments precede, and none is taken when
there is no such line, if and only if this holds at every line up to which the header is read right:
where a word goes on behind a mark in front, that word is the answer that the lines behind give;
where code stands behind the end of a comment, nothing is taken from the lines behind; and where
another comment opens there, what is taken from the lines behind is the answer that they give inside
a comment. -/
theorem answers_lineOf_iff (source : String) :
    Answers false (headerLines source) (lineOf source) ↔
      ∀ before line after inBlock, headerLines source = before ++ line :: after →
        PassedAlike false before inBlock → Harmless inBlock line after := by
  refine answers_lineIn_iff fun line hline c hc => ?_
  obtain ⟨raw, -, rfl⟩ := List.mem_map.mp hline
  exact isBlank_of_head?_trimChars hc

/-- Code behind the end of a comment does not end the header: a mark below it is taken, though the
header has no constraint line. -/
theorem mark_below_code_taken :
    lineOf "/* c */ package p\n//go:build ignore\n" = some "ignore" ∧
      Answers false (headerLines "/* c */ package p\n//go:build ignore\n") none := by
  have hlines : headerLines "/* c */ package p\n//go:build ignore\n" =
      ["/* c */ package p".toList, "//go:build ignore".toList] := by decide
  refine ⟨by decide, hlines ▸ (answers_of_code ?_ rfl).mpr rfl⟩
  rintro - text ⟨rest, heq, -⟩
  cases heq

end EnumHelpers.Constraint
