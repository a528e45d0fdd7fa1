import EnumHelpers.Proofs.Package.Direct
import Mathlib.Logic.Relation

/-!
# Proofs — where an evaluation stops

An evaluation goes from place to place: from an expression to its operands, to the right one when
the left one has a value, and from a name to the expression that it is declared with, unless the
name was passed (`Next`).  At a place it may be stopped: by a literal or an operator that gives no
value, by an expression outside of the constant subset, by a name without a declaration or without
an expression, and by a name that was passed (`Stops`).

* `valueAt_eq_error_iff`: an evaluation ends in a failure if and only if it comes to a place where
  it is stopped by that failure.
-/

namespace EnumHelpers.Package

/-- A place in an evaluation: an expression with the number of its declaration, and the names that
were passed on the way. -/
structure Place where
  path : List String
  iota : Nat
  expr : Expr

/-- The place at which the evaluation of a name begins. -/
def Place.ofName (name : String) : Place := ⟨[], 0, .name name⟩

/-- What the expression at a place comes to when nothing is kept. -/
def valueAt (types : Types) (decls : List ConstantDecl) (p : Place) :
    Except Constant.Failure Typed :=
  evaluated types (direct types decls p.path) p.iota p.expr

variable {types : Types} {decls : List ConstantDecl}

/-- One step of an evaluation. -/
inductive Next (types : Types) (decls : List ConstantDecl) : Place → Place → Prop where
  | paren {path iota e} : Next types decls ⟨path, iota, .paren e⟩ ⟨path, iota, e⟩
  | unary {path iota op e} : Next types decls ⟨path, iota, .unary op e⟩ ⟨path, iota, e⟩
  | left {path iota op l r} : Next types decls ⟨path, iota, .binary op l r⟩ ⟨path, iota, l⟩
  | right {path iota op l r} {left : Typed} (h : valueAt types decls ⟨path, iota, l⟩ = .ok left) :
      Next types decls ⟨path, iota, .binary op l r⟩ ⟨path, iota, r⟩
  | conversion {path iota type e} (h : types.isType type = true) :
      Next types decls ⟨path, iota, .conversion type e⟩ ⟨path, iota, e⟩
  | name {path iota s decl e} (hd : declOf? decls s = some decl) (he : decl.expression = some e)
      (hp : s ∉ path) : Next types decls ⟨path, iota, .name s⟩ ⟨s :: path, decl.iota, e⟩

/-- The evaluation that begins at the first place comes to the second. -/
def Reaches (types : Types) (decls : List ConstantDecl) : Place → Place → Prop :=
  Relation.ReflTransGen (Next types decls)

/-- An evaluation is stopped at a place: what is to be evaluated before has a value. -/
inductive Stops (types : Types) (decls : List ConstantDecl) : Place → Constant.Failure → Prop where
  | int {path iota text cause} (h : Constant.integerLiteral text = .error cause) :
      Stops types decls ⟨path, iota, .int text⟩ cause
  | float {path iota text cause} (h : Constant.floatLiteral text = .error cause) :
      Stops types decls ⟨path, iota, .float text⟩ cause
  | rune {path iota text cause} (h : Constant.runeLiteral text = .error cause) :
      Stops types decls ⟨path, iota, .rune text⟩ cause
  | unary {path iota op e cause} {operand : Typed}
      (ho : valueAt types decls ⟨path, iota, e⟩ = .ok operand)
      (h : Constant.applyUnary op operand.value (types.unsignedBits operand.type) = .error cause) :
      Stops types decls ⟨path, iota, .unary op e⟩ cause
  | binary {path iota op l r cause} {left right : Typed}
      (hl : valueAt types decls ⟨path, iota, l⟩ = .ok left)
      (hr : valueAt types decls ⟨path, iota, r⟩ = .ok right)
      (h : Constant.applyBinary op left.value right.value = .error cause) :
      Stops types decls ⟨path, iota, .binary op l r⟩ cause
  | conversion {path iota type e} (h : types.isType type = false) :
      Stops types decls ⟨path, iota, .conversion type e⟩ (.refused .outsideSubset)
  | unsupported {path iota} :
      Stops types decls ⟨path, iota, .unsupported⟩ (.refused .outsideSubset)
  | notText {path iota} : Stops types decls ⟨path, iota, .notText⟩ .notText
  | undeclared {path iota s} (hd : declOf? decls s = none) :
      Stops types decls ⟨path, iota, .name s⟩ (.refused (.notAConstant s))
  | noExpression {path iota s decl} (hd : declOf? decls s = some decl)
      (he : decl.expression = none) :
      Stops types decls ⟨path, iota, .name s⟩ (.refused (.noExpression s))
  | cycle {path iota s decl e} (hd : declOf? decls s = some decl) (he : decl.expression = some e)
      (hp : s ∈ path) : Stops types decls ⟨path, iota, .name s⟩ (.cycle s)

/-- A name ends in a failure where it is stopped, and where its expression does. -/
theorem direct_eq_error_iff {path : List String} {iota : Nat} {s : String}
    {cause : Constant.Failure} : direct types decls path s = .error cause ↔
      Stops types decls ⟨path, iota, .name s⟩ cause ∨
        ∃ q, Next types decls ⟨path, iota, .name s⟩ q ∧ valueAt types decls q = .error cause := by
  constructor
  · intro h
    cases hd : declOf? decls s with
    | none =>
        rw [direct_of_undeclared hd] at h
        cases h
        exact .inl (.undeclared hd)
    | some decl =>
        cases he : decl.expression with
        | none =>
            rw [direct_of_noExpression hd he] at h
            cases h
            exact .inl (.noExpression hd he)
        | some e =>
            by_cases hp : s ∈ path
            · rw [direct_of_mem hd he hp] at h
              cases h
              exact .inl (.cycle hd he hp)
            · rw [direct_of_notMem hd he hp, map_eq_error] at h
              exact .inr ⟨_, .name hd he hp, h⟩
  · rintro (h | ⟨q, h, hq⟩)
    · cases h with
      | undeclared hd => exact direct_of_undeclared hd
      | noExpression hd he => exact direct_of_noExpression hd he
      | cycle hd he hp => exact direct_of_mem hd he hp
    · cases h with
      | name hd he hp =>
          rw [direct_of_notMem hd he hp, map_eq_error]
          exact hq

/-- At a place that leads nowhere, an expression ends in a failure where it is stopped. -/
theorem step_of_leaf {p : Place} {cause : Constant.Failure}
    (hnext : ∀ q, ¬ Next types decls p q)
    (hstop : valueAt types decls p = .error cause ↔ Stops types decls p cause) :
    valueAt types decls p = .error cause ↔ Stops types decls p cause ∨
      ∃ q, Next types decls p q ∧ valueAt types decls q = .error cause := by
  rw [hstop]
  refine ⟨.inl, ?_⟩
  rintro (h | ⟨q, h, -⟩)
  · exact h
  · exact (hnext q h).elim

/-- **One step to a failure.**  The expression at a place ends in a failure if and only if the
evaluation is stopped there, or goes on to a place whose expression does. -/
theorem valueAt_eq_error_step {p : Place} {cause : Constant.Failure} :
    valueAt types decls p = .error cause ↔ Stops types decls p cause ∨
      ∃ q, Next types decls p q ∧ valueAt types decls q = .error cause := by
  obtain ⟨path, iota, e⟩ := p
  cases e with
  | int text =>
      refine step_of_leaf nofun ?_
      rw [valueAt, evaluated_int, bind_ok_eq_error]
      exact ⟨.int, fun | .int h => h⟩
  | float text =>
      refine step_of_leaf nofun ?_
      rw [valueAt, evaluated_float, bind_ok_eq_error]
      exact ⟨.float, fun | .float h => h⟩
  | rune text =>
      refine step_of_leaf nofun ?_
      rw [valueAt, evaluated_rune, bind_ok_eq_error]
      exact ⟨.rune, fun | .rune h => h⟩
  | string text | truth b | iota => exact step_of_leaf nofun ⟨nofun, nofun⟩
  | unsupported =>
      refine step_of_leaf nofun ⟨?_, ?_⟩
      · rintro ⟨⟩
        exact .unsupported
      · rintro ⟨⟩
        rfl
  | notText =>
      refine step_of_leaf nofun ⟨?_, ?_⟩
      · rintro ⟨⟩
        exact .notText
      · rintro ⟨⟩
        rfl
  | name s => exact direct_eq_error_iff
  | paren e =>
      refine ⟨fun h => .inr ⟨_, .paren, h⟩, ?_⟩
      rintro (h | ⟨q, h, hq⟩)
      · cases h
      · cases h
        exact hq
  | unary op e =>
      rw [valueAt, evaluated_unary, bind_eq_error]
      constructor
      · rintro (h | ⟨operand, ho, h⟩)
        · exact .inr ⟨_, .unary, h⟩
        · exact .inl (.unary ho (bind_ok_eq_error.mp h))
      · rintro (h | ⟨q, h, hq⟩)
        · cases h with
          | unary ho h => exact .inr ⟨_, ho, bind_ok_eq_error.mpr h⟩
        · cases h
          exact .inl hq
  | binary op l r =>
      rw [valueAt, evaluated_binary, bind_eq_error]
      constructor
      · rintro (h | ⟨left, hl, h⟩)
        · exact .inr ⟨_, .left, h⟩
        · rcases bind_eq_error.mp h with h | ⟨right, hr, h⟩
          · exact .inr ⟨_, .right hl, h⟩
          · exact .inl (.binary hl hr (bind_ok_eq_error.mp h))
      · rintro (h | ⟨q, h, hq⟩)
        · cases h with
          | binary hl hr h =>
              exact .inr ⟨_, hl, bind_eq_error.mpr (.inr ⟨_, hr, bind_ok_eq_error.mpr h⟩)⟩
        · cases h with
          | left => exact .inl hq
          | right hl => exact .inr ⟨_, hl, bind_eq_error.mpr (.inl hq)⟩
  | conversion type e =>
      rw [valueAt, evaluated_conversion]
      cases ht : types.isType type with
      | true =>
          rw [if_pos rfl, bind_ok_eq_error]
          refine ⟨fun h => .inr ⟨_, .conversion ht, h⟩, ?_⟩
          rintro (h | ⟨q, h, hq⟩)
          · cases h with
            | conversion h => rw [ht] at h; cases h
          · cases h
            exact hq
      | false =>
          rw [if_neg Bool.false_ne_true]
          constructor
          · intro h
            cases h
            exact .inl (.conversion ht)
          · rintro (h | ⟨q, h, -⟩)
            · cases h
              rfl
            · cases h with
              | conversion h => rw [ht] at h; cases h

/-- A step leads to a part of the expression, or leaves one declared name less ahead. -/
theorem Next.decreases {p q : Place} (h : Next types decls p q) :
    Prod.Lex (· < ·) (· < ·) ((ahead decls q.path).length, sizeOf q.expr)
      ((ahead decls p.path).length, sizeOf p.expr) := by
  cases h with
  | name hd he hp => exact .left _ _ (length_ahead_lt hd hp)
  | paren | unary | left | right | conversion =>
      refine .right _ ?_
      simp only [Expr.paren.sizeOf_spec, Expr.unary.sizeOf_spec, Expr.binary.sizeOf_spec,
        Expr.conversion.sizeOf_spec]
      omega

/-- **An evaluation ends in a failure if and only if it comes to a place where it is stopped.** -/
theorem valueAt_eq_error_iff {p : Place} {cause : Constant.Failure} :
    valueAt types decls p = .error cause ↔
      ∃ q, Reaches types decls p q ∧ Stops types decls q cause := by
  constructor
  · have hwf : WellFounded fun q p : Place => Prod.Lex (· < ·) (· < ·)
        ((ahead decls q.path).length, sizeOf q.expr)
        ((ahead decls p.path).length, sizeOf p.expr) :=
      InvImage.wf (fun p : Place => ((ahead decls p.path).length, sizeOf p.expr))
        (Prod.lex ⟨_, Nat.lt_wfRel.wf⟩ ⟨_, Nat.lt_wfRel.wf⟩).wf
    induction p using hwf.induction with
    | _ p ih =>
        intro h
        rcases valueAt_eq_error_step.mp h with hstop | ⟨q, hnext, hq⟩
        · exact ⟨p, .refl, hstop⟩
        · obtain ⟨q', hreach, hstop⟩ := ih q hnext.decreases hq
          exact ⟨q', .head hnext hreach, hstop⟩
  · rintro ⟨q, hreach, hstop⟩
    induction hreach using Relation.ReflTransGen.head_induction_on with
    | refl => exact valueAt_eq_error_step.mpr (.inl hstop)
    | head hnext _ ih => exact valueAt_eq_error_step.mpr (.inr ⟨_, hnext, ih⟩)

theorem direct_nil_eq_error_iff {name : String} {cause : Constant.Failure} :
    direct types decls [] name = .error cause ↔
      ∃ p, Reaches types decls (.ofName name) p ∧ Stops types decls p cause :=
  valueAt_eq_error_iff (p := .ofName name)

end EnumHelpers.Package
