import EnumHelpers.Proofs.Constant.Faults
import EnumHelpers.Proofs.Package.History
import EnumHelpers.Proofs.Source.Reading

/-!
# Proofs — evaluations that break off

The evaluation of constants that are read from a text has no value when it is refused or leads back
to itself, and only one other way to fail: it comes to a number that cannot be held (`Exceeds`).

* `breaks_direct_iff`: the evaluation of a name breaks off if and only if it comes to such a number.
-/

namespace EnumHelpers.Package

variable {types : Types} {decls : List ConstantDecl}

/-- The number at a place in an evaluation cannot be held: a literal has too many digits or is out
of range, or an integer is shifted up by too much. -/
inductive Exceeds (types : Types) (decls : List ConstantDecl) : Place → Prop where
  | int {path iota text ds} (h : Constant.IntegerForm text.toList 10 ds)
      (hlong : Number.digitLimit < ds.length) : Exceeds types decls ⟨path, iota, .int text⟩
  | float {path iota text} (h : Constant.FloatExceeds text.toList) :
      Exceeds types decls ⟨path, iota, .float text⟩
  | shift {path iota l r} {left right : Typed}
      (hl : valueAt types decls ⟨path, iota, l⟩ = .ok left)
      (hr : valueAt types decls ⟨path, iota, r⟩ = .ok right)
      (h : Constant.ShiftExceeds left.value right.value) :
      Exceeds types decls ⟨path, iota, .binary .shiftLeft l r⟩

/-- **Where an evaluation breaks off**, a number cannot be held. -/
theorem breaks_stops_iff {p : Place} (hp : p.expr.Grammatical) :
    (∃ cause, cause.Breaks ∧ Stops types decls p cause) ↔ Exceeds types decls p := by
  constructor
  · rintro ⟨cause, hbreaks, hstop⟩
    cases hstop with
    | int h =>
        obtain ⟨ds, hform, hlong⟩ := (Constant.breaks_integerLiteral_iff hp).mp ⟨cause, hbreaks, h⟩
        exact .int hform hlong
    | float h => exact .float ((Constant.breaks_floatLiteral_iff hp).mp ⟨cause, hbreaks, h⟩)
    | rune h =>
        obtain ⟨n, hn⟩ := Constant.runeLiteral_of_isRune hp
        rw [hn] at h
        cases h
    | unary _ h => exact (Constant.refuses_applyUnary _ _ _ _ h hbreaks).elim
    | binary hl hr h =>
        obtain ⟨rfl, hshift⟩ := Constant.breaks_applyBinary_iff.mp ⟨cause, hbreaks, h⟩
        exact .shift hl hr hshift
    | notText => exact hp.elim
    | conversion | unsupported | undeclared | noExpression | cycle => exact hbreaks.elim
  · intro h
    cases h with
    | int h hlong =>
        obtain ⟨cause, hbreaks, h⟩ :=
          (Constant.breaks_integerLiteral_iff ⟨_, _, h⟩).mpr ⟨_, h, hlong⟩
        exact ⟨cause, hbreaks, .int h⟩
    | float h =>
        obtain ⟨cause, hbreaks, h⟩ := (Constant.breaks_floatLiteral_iff hp).mpr h
        exact ⟨cause, hbreaks, .float h⟩
    | shift hl hr h =>
        obtain ⟨cause, hbreaks, h⟩ := Constant.breaks_applyBinary_iff.mpr ⟨rfl, h⟩
        exact ⟨cause, hbreaks, .binary hl hr h⟩

/-- The expressions of constants are grammatical. -/
def Grammatical (decls : List ConstantDecl) : Prop :=
  ∀ decl ∈ decls, ∀ e ∈ decl.expression, e.Grammatical

theorem Next.grammatical (hd : Grammatical decls) {p q : Place} (h : Next types decls p q)
    (hp : p.expr.Grammatical) : q.expr.Grammatical := by
  cases h with
  | paren | unary | conversion => exact hp
  | left => exact hp.1
  | right => exact hp.2
  | name hdecl he _ => exact hd _ (name_of_declOf? hdecl).2 _ he

theorem Reaches.grammatical (hd : Grammatical decls) {p q : Place} (h : Reaches types decls p q)
    (hp : p.expr.Grammatical) : q.expr.Grammatical := by
  induction h with
  | refl => exact hp
  | tail _ hnext ih => exact hnext.grammatical hd ih

/-- **The evaluation of a name breaks off** if and only if it comes to a number that cannot be
held. -/
theorem breaks_direct_iff (hd : Grammatical decls) {name : String} :
    (∃ cause, cause.Breaks ∧ direct types decls [] name = .error cause) ↔
      ∃ p, Reaches types decls (.ofName name) p ∧ Exceeds types decls p := by
  constructor
  · rintro ⟨cause, hbreaks, h⟩
    obtain ⟨p, hreach, hstop⟩ := direct_nil_eq_error_iff.mp h
    exact ⟨p, hreach, (breaks_stops_iff (hreach.grammatical hd trivial)).mp ⟨cause, hbreaks, hstop⟩⟩
  · rintro ⟨p, hreach, h⟩
    obtain ⟨cause, hbreaks, hstop⟩ := (breaks_stops_iff (hreach.grammatical hd trivial)).mpr h
    exact ⟨cause, hbreaks, direct_nil_eq_error_iff.mpr ⟨p, hreach, hstop⟩⟩

theorem exists_recorded_iff {decl : ConstantDecl} {o : Except Constant.Failure Typed} :
    (∃ here, recorded decl o = .ok here) ↔ ¬ ∃ cause, cause.Breaks ∧ o = .error cause := by
  cases o with
  | ok typed => exact ⟨fun _ => nofun, fun _ => ⟨_, rfl⟩⟩
  | error cause => cases cause <;> simp [recorded, Constant.Failure.Breaks]

/-- Constants are recorded unless the evaluation of one of them breaks off. -/
theorem exists_recordAll_iff (hd : Grammatical decls) :
    (∃ records, recordAll types decls {} decls = .ok records) ↔
      ∀ decl ∈ decls, ∀ p, Reaches types decls (.ofName decl.name) p → ¬ Exceeds types decls p := by
  rw [recordAll_eq_alone decls sound_empty, exists_mapM_eq_ok]
  refine forall₂_congr fun decl _ => ?_
  have hmap : (∃ entry, recordedAlone types decls decl = .ok entry) ↔
      ∃ here, recorded decl (direct types decls [] decl.name) = .ok here := by
    simp only [recordedAlone, map_eq_ok]
    constructor
    · rintro ⟨_, here, h, -⟩
      exact ⟨here, h⟩
    · rintro ⟨here, h⟩
      exact ⟨_, here, h, rfl⟩
  rw [hmap, exists_recorded_iff, breaks_direct_iff hd]
  push Not
  rfl

end EnumHelpers.Package
