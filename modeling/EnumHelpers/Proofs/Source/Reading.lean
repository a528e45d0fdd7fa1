import EnumHelpers.Proofs.Source.Lexer
import EnumHelpers.Proofs.Source.Pattern

/-!
# Proofs — what a text says

What is read from the trees of a source file without stray bytes is text throughout: no expression,
type or comment holds bytes that are none (`SourceFile.IsText`), and the literals in expressions are
spelled as their kinds are (`Expr.Grammatical`).

* `isText_of_parse`: this holds of every file that is read from a text.
-/

namespace EnumHelpers

open Source in
/-- The literals in an expression are spelled as they have to be, and all of it is text. -/
def Expr.Grammatical : Expr → Prop
  | .int text => ∃ base ds, Constant.IntegerForm text.toList base ds
  | .float text => IsFloat text.toList
  | .rune text => IsRune text.toList
  | .paren e | .unary _ e | .conversion _ e => e.Grammatical
  | .binary _ l r => l.Grammatical ∧ r.Grammatical
  | .string _ | .truth _ | .iota | .name _ | .unsupported => True
  | .notText => False

namespace Source
open Text Constant

/-! ### Text -/

/-- Tokens of a text stand for a text. -/
theorem rawText_of_lexed {ts : List Token} (h : ∀ t ∈ ts, Lexed t) : ∃ s, rawText ts = some s := by
  suffices hraw : ∃ cs : List Char, rawGlyphs ts = cs.map .char by
    obtain ⟨cs, hcs⟩ := hraw
    exact ⟨_, by rw [rawText, hcs, textOfGlyphs_map]⟩
  have hrest : ∀ ts : List Token, (∀ t ∈ ts, Lexed t) →
      ∃ cs : List Char, (ts.flatMap fun t => t.gap ++ t.glyphs) = cs.map .char := by
    intro ts h
    induction ts with
    | nil => exact ⟨[], rfl⟩
    | cons t ts ih =>
        rw [List.forall_mem_cons] at h
        obtain ⟨⟨cs, hcs, -⟩, gap, hgap⟩ := h.1
        obtain ⟨more, hmore⟩ := ih h.2
        exact ⟨gap ++ cs ++ more, by
          rw [List.flatMap_cons, hgap, hcs, hmore, List.map_append, List.map_append]⟩
  cases ts with
  | nil => exact ⟨[], rfl⟩
  | cons t ts =>
      rw [List.forall_mem_cons] at h
      obtain ⟨⟨cs, hcs, -⟩, -⟩ := h.1
      obtain ⟨more, hmore⟩ := hrest ts h.2
      exact ⟨cs ++ more, by rw [rawGlyphs, hcs, hmore, List.map_append]⟩

theorem steady_lexed : Steady Lexed := fun _ h => ⟨h.spelled, h.gap⟩

/-! ### Expressions -/

/-- The expressions in a part are grammatical. -/
def Part.Grammatical : Part → Prop
  | .token t => Lexed t
  | .operand e => e.Grammatical
  | .arguments operands => ∀ e ∈ operands, e.Grammatical
  | .operator _ | .typeArguments | .other => True

theorem grammatical_ofToken {t : Token} (h : Lexed t) : (Part.ofToken t).Grammatical := by
  obtain ⟨⟨cs, hcs, hspelling⟩, -⟩ := h
  rw [Part.ofToken, hcs, textOfGlyphs_map, Option.getD_some]
  cases hkind : t.kind with
  | int | float | rune =>
      rw [hkind] at hspelling
      simpa only [Expr.Grammatical, Spelling, String.toList_ofList] using hspelling
  | word s =>
      dsimp only
      split
      · trivial
      · split
        · trivial
        · split
          · trivial
          · split <;> trivial
  | _ => trivial

theorem grammatical_applyLevel (level : Nat) {e : Expr} {rest : List (BinaryOp × Expr)}
    (he : e.Grammatical) (hr : ∀ x ∈ rest, x.2.Grammatical) :
    (Expr.applyLevel level e rest).1.Grammatical ∧
      ∀ x ∈ (Expr.applyLevel level e rest).2, x.2.Grammatical := by
  induction rest generalizing e with
  | nil => exact ⟨he, hr⟩
  | cons x rest ih =>
      obtain ⟨op, operand⟩ := x
      rw [List.forall_mem_cons] at hr
      rw [Expr.applyLevel]
      split
      · exact ih ⟨he, hr.1⟩ hr.2
      · obtain ⟨hoperand, hrest⟩ := ih hr.1 hr.2
        exact ⟨he, List.forall_mem_cons.mpr ⟨hoperand, hrest⟩⟩

theorem grammatical_ofChain {e : Expr} {rest : List (BinaryOp × Expr)} (he : e.Grammatical)
    (hr : ∀ x ∈ rest, x.2.Grammatical) : (Expr.ofChain e rest).Grammatical := by
  suffices h : ∀ (levels : List Nat) (p : Expr × List (BinaryOp × Expr)),
      p.1.Grammatical → (∀ x ∈ p.2, x.2.Grammatical) →
        (levels.foldl (fun x level => Expr.applyLevel level x.1 x.2) p).1.Grammatical from
    h _ (e, rest) he hr
  intro levels
  induction levels with
  | nil => exact fun p he _ => he
  | cons level levels ih =>
      intro p he hr
      obtain ⟨he', hr'⟩ := grammatical_applyLevel level he hr
      exact ih _ he' hr'

theorem grammatical_operands {parts : List Part} (h : ∀ p ∈ parts, p.Grammatical) :
    ∀ e ∈ Part.operands parts, e.Grammatical := by
  intro e he
  obtain ⟨p, hp, heq⟩ := List.mem_filterMap.mp he
  have hpart := h p hp
  split at heq
  · cases heq
    exact hpart
  · cases heq

theorem grammatical_applied {parts : List Part} (h : ∀ p ∈ parts, p.Grammatical) :
    ∀ x ∈ Part.applied parts, x.2.Grammatical := by
  induction parts using Part.applied.induct with
  | case1 op e rest ih =>
      rw [Part.applied]
      simp only [List.forall_mem_cons] at h
      exact List.forall_mem_cons.mpr ⟨h.2.1, ih h.2.2⟩
  | case2 p rest hne ih =>
      rw [Part.applied.eq_2 _ _ hne]
      exact ih (List.forall_mem_cons.mp h).2
  | case3 => exact nofun

theorem grammatical_ofCall {t : Token} {operands : List Expr}
    (h : ∀ e ∈ operands, e.Grammatical) : (Part.ofCall t operands).Grammatical := by
  rw [Part.ofCall.eq_def]
  split
  · rename_i e _
    exact (h e List.mem_cons_self : e.Grammatical)
  · trivial

theorem grammatical_ofPrimary {parts : List Part} (h : ∀ p ∈ parts, p.Grammatical) :
    (Part.ofPrimary parts).Grammatical := by
  rw [Part.ofPrimary.eq_def]
  split
  · exact grammatical_ofToken (h _ List.mem_cons_self)
  · exact h _ List.mem_cons_self
  · exact grammatical_ofCall (h (.arguments _) (by simp))
  · exact grammatical_ofCall (h (.arguments _) (by simp))
  · trivial

theorem grammatical_ofLabel (label : Label) {parts : List Part} (h : ∀ p ∈ parts, p.Grammatical) :
    (Part.ofLabel label parts).Grammatical := by
  have hfirst : ((Part.operands parts).head?.getD .unsupported).Grammatical := by
    cases hp : Part.operands parts with
    | nil => trivial
    | cons e es => exact grammatical_operands h e (hp ▸ List.mem_cons_self)
  cases label with
  | chain => exact grammatical_ofChain hfirst (grammatical_applied h)
  | unary => exact hfirst
  | paren => exact hfirst
  | primary => exact grammatical_ofPrimary h
  | argument =>
      rw [Part.ofLabel]
      split
      · exact hfirst
      · trivial
  | arguments => exact grammatical_operands h
  | _ => trivial

mutual

theorem grammatical_part : (t : Tree) → t.Keeps Lexed → t.part.Grammatical
  | .leaf _, h => h
  | .node label parts, h => grammatical_ofLabel label (grammatical_partsOfAll parts h.2)

theorem grammatical_partsOfAll : (trees : List Tree) → KeepAll Lexed trees →
    ∀ p ∈ Tree.partsOfAll trees, p.Grammatical
  | [], _ => nofun
  | t :: rest, h =>
      List.forall_mem_cons.mpr ⟨grammatical_part t h.1, grammatical_partsOfAll rest h.2⟩

end

/-- The expression that a tree of a text stands for is grammatical. -/
theorem grammatical_expression {t : Tree} (h : t.Keeps Lexed) : t.expression.Grammatical := by
  obtain ⟨s, hs⟩ := rawText_of_lexed h.tokens
  have hpart := grammatical_part t h
  rw [Tree.expression, hs]
  split
  · rename_i e
    cases e
  · rename_i e
    rw [e] at hpart
    exact hpart
  · trivial

/-! ### Files -/

/-- All that a file says is text, and its expressions are grammatical. -/
structure SourceFile.IsText (file : SourceFile) : Prop where
  types : ∀ spec ∈ file.types, ∃ target, spec.target = some target
  constants : ∀ group ∈ file.constants, ∀ spec ∈ group, ∀ v ∈ spec.given,
    v.type ≠ some none ∧ ∀ e ∈ v.expressions, e.Grammatical
  comments : ∀ c ∈ file.comments, ∃ text : List Char, c.glyphs = text.map .char

variable {trees parts : List Tree}

theorem target_typeSpecOf (isAlias : Bool) (h : KeepAll Lexed parts)
    (hp : (partsOf? .type parts).isSome = true) :
    ∃ target, (typeSpecOf isAlias parts).target = some target := by
  obtain ⟨inner, hinner⟩ := Option.isSome_iff_exists.mp hp
  obtain ⟨s, hs⟩ := rawText_of_lexed ((h.partsOf? hinner).tokens)
  exact ⟨s, by rw [typeSpecOf, rawTextOf?, hinner, Option.map_some, hs]; rfl⟩

theorem target_typesOf (h : KeepAll Lexed trees) :
    ∀ spec ∈ typesOf trees, ∃ target, spec.target = some target := by
  intro spec hspec
  obtain ⟨t, ht, heq⟩ := List.mem_filterMap.mp hspec
  have hkeeps := h.mem ht
  split at heq
  · cases heq
    exact target_typeSpecOf false hkeeps.2 hkeeps.1
  · cases heq
    exact target_typeSpecOf true hkeeps.2 hkeeps.1
  · cases heq

theorem grammatical_expressionsOf (h : KeepAll Lexed trees) :
    ∀ e ∈ expressionsOf trees, e.Grammatical := by
  intro e he
  obtain ⟨t, ht, heq⟩ := List.mem_filterMap.mp he
  have hkeeps := h.mem ht
  split at heq
  · cases heq
    exact grammatical_expression hkeeps
  · cases heq

theorem isText_constSpecOf (h : KeepAll Lexed parts) : ∀ v ∈ (constSpecOf parts).given,
    v.type ≠ some none ∧ ∀ e ∈ v.expressions, e.Grammatical := by
  intro v hv
  obtain ⟨values, hvalues, rfl⟩ := Option.map_eq_some_iff.mp hv
  refine ⟨?_, grammatical_expressionsOf (h.partsOf? hvalues)⟩
  intro htype
  obtain ⟨inner, hinner, hnone⟩ := Option.map_eq_some_iff.mp htype
  obtain ⟨s, hs⟩ := rawText_of_lexed ((h.partsOf? hinner).tokens)
  rw [hs] at hnone
  cases hnone

/-- **All that is read from a text is text**, and its literals are spelled as they have to be. -/
theorem isText_of_parse {cs : List Char} {file : SourceFile}
    (h : SourceFile.parse (cs.map .char) = some file) : file.IsText := by
  obtain ⟨htokens, hcomments⟩ := lexed_scan cs
  obtain ⟨trees, htrees, rfl⟩ := Option.map_eq_some_iff.mp h
  have hkeeps := treesOf_keeps steady_lexed htokens htrees
  refine ⟨target_typesOf hkeeps, fun group hgroup spec hspec => ?_, hcomments⟩
  obtain ⟨parts, hparts, rfl⟩ := List.mem_map.mp hgroup
  obtain ⟨inner, hinner, rfl⟩ := List.mem_map.mp hspec
  exact isText_constSpecOf ((hkeeps.of_mem_allPartsOf hparts).2.of_mem_allPartsOf hinner).2

end Source
end EnumHelpers
