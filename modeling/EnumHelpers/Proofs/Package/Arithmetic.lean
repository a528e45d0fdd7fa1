import EnumHelpers.Proofs.Constant.Literal
import EnumHelpers.Proofs.Package.Search

/-!
# Proofs — exact arithmetic of untyped constants

The arithmetic that untyped constants are meant to have: every expression carries a kind, integer or
float, whatever its value; sums, differences and products are exact, and a quotient is cut off
toward zero when both operands are integers by kind and exact otherwise (`Means`).

The evaluator tells the kinds apart by the form of a value alone, and collapses a rational that is
integral.  So a division of two floats whose values are integral is taken for one of integers,
unless one of them is a literal, and then loses its fraction: `LossyDivision`.  Where an expression
holds neither such a division nor a literal with too many digits, every part of it has the value it
is meant to have, and only there.

* `denote_of_means`: the value of an expression without such a division.
-/

namespace EnumHelpers.Package
open Constant (BinaryOp UnaryOp IntegerForm RuneForm FloatForm FloatDigits)
open Number (positional)

/-! ### The arithmetic -/

/-- A number with the kind that it has in an expression. -/
inductive Quantity where
  | integer (n : Int)
  | float (q : Rat)
  deriving DecidableEq, Repr

namespace Quantity

/-- The number alone. -/
def value : Quantity → Rat
  | .integer n => n
  | .float q => q

/-- Whether a number is a float by kind. -/
def isFloat : Quantity → Bool
  | .integer _ => false
  | .float _ => true

/-- The number with its sign changed. -/
def neg : Quantity → Quantity
  | .integer n => .integer (-n)
  | .float q => .float (-q)

/-- The result of an operation that is one on integers and one on other numbers: the result is an
integer by kind when both operands are. -/
def combine (onIntegers : Int → Int → Int) (onNumbers : Rat → Rat → Rat) :
    Quantity → Quantity → Quantity
  | .integer a, .integer b => .integer (onIntegers a b)
  | p, q => .float (onNumbers p.value q.value)

/-- The result of an arithmetic operator; none for a division by zero. -/
def apply (op : BinaryOp) (p q : Quantity) : Option Quantity :=
  match op with
  | .add => some (combine (· + ·) (· + ·) p q)
  | .sub => some (combine (· - ·) (· - ·) p q)
  | .mul => some (combine (· * ·) (· * ·) p q)
  | .div => if q.value = 0 then none else some (combine Int.tdiv (· / ·) p q)
  | _ => none

end Quantity

/-- The operators of the arithmetic. -/
def arithmeticOps : List BinaryOp := [.add, .sub, .mul, .div]

/-- The number that an expression of literals, signs, parentheses and arithmetic operators means;
none when a divisor is zero. -/
inductive Means : Expr → Option Quantity → Prop where
  | int {text : String} {base : Nat} {ds : List Nat} :
      IntegerForm text.toList base ds → Means (.int text) (some (.integer (positional base ds)))
  | rune {text : String} {cs : List Char} {n : Nat} :
      RuneForm cs n → text.toList = '\'' :: cs ++ ['\''] →
        Means (.rune text) (some (.integer n))
  | float {text : String} {d : FloatDigits} :
      FloatForm text.toList d → Means (.float text) (some (.float d.value))
  | paren {e : Expr} {v : Option Quantity} : Means e v → Means (.paren e) v
  | plus {e : Expr} {v : Option Quantity} : Means e v → Means (.unary .plus e) v
  | minus {e : Expr} {v : Option Quantity} :
      Means e v → Means (.unary .minus e) (v.map Quantity.neg)
  | binary {op : BinaryOp} {l r : Expr} {v w : Option Quantity} :
      op ∈ arithmeticOps → Means l v → Means r w →
        Means (.binary op l r) (v.bind fun p => w.bind fun q => Quantity.apply op p q)

/-- A property of an expression and of all its parts. -/
def Everywhere (P : Expr → Prop) : Expr → Prop
  | .paren e => P (.paren e) ∧ Everywhere P e
  | .unary op e => P (.unary op e) ∧ Everywhere P e
  | .binary op l r => P (.binary op l r) ∧ Everywhere P l ∧ Everywhere P r
  | .conversion type e => P (.conversion type e) ∧ Everywhere P e
  | e => P e

/-- A literal has no more digits in one row than are read. -/
def ReadableLiteral : Expr → Prop
  | .int text => ∀ base ds, IntegerForm text.toList base ds → Number.Readable base ds
  | .float text => ∀ d, FloatForm text.toList d → d.Readable
  | _ => True

/-- A division of floats, at least by kind, that is taken for one of integers: both values are
integral, and neither operand is a literal.  Its quotient is not integral. -/
def LossyDivision : Expr → Prop
  | .binary .div l r => ∃ p q, Means l (some p) ∧ Means r (some q) ∧
      (p.isFloat = true ∨ q.isFloat = true) ∧ p.value.den = 1 ∧ q.value.den = 1 ∧
      isSignedFloat l = false ∧ isSignedFloat r = false ∧ (p.value / q.value).den ≠ 1
  | _ => False

variable {types : Types} {iota : Nat}

/-! ### Expressions without names -/

/-- An expression that stands for something without its names is evaluated to that, whatever the
progress and the names. -/
theorem evaluate_of_denote {e : Expr} {o : Except Constant.Failure Typed}
    (h : denote types (fun _ => none) iota e = some o) (lookup : String → Search Typed)
    (p : Progress) : (evaluate types lookup iota e).run p = (o, p) := by
  have htells : Tells (· = p) (evaluate types lookup iota e)
      fun _ => denote types (fun _ => none) iota e := by
    -- a name that is met would leave the whole without an outcome
    have hnever : ∀ s, (∀ n : Nat, (none : Outcome Typed) = none → False) →
        Tells (· = p) (lookup s) fun _ => none := fun s hs => (hs 0 rfl).elim
    refine evaluate_tells (fun _ => mono_const _) hnever e fun n hn => ?_
    rw [h] at hn
    cases hn
  obtain ⟨o', p', hrun, rfl, hanswer⟩ := htells p rfl
  rcases hanswer with ⟨n, hn⟩ | ⟨-, hnone⟩
  · rw [h] at hn
    cases hn
    exact hrun
  · have := hnone 0
    rw [h] at this
    cases this

/-- The form in which an expression holds a number: collapsed, unless the expression is a float
literal in parentheses and under signs. -/
def held (e : Expr) (x : Rat) : Constant :=
  if isSignedFloat e then .ratio x else (Constant.ratio x).normalize

theorem number?_normalize (x : Rat) : (Constant.ratio x).normalize.number? = some x := by
  rw [Constant.normalize]
  split
  · rename_i h
    rw [Constant.number?, Rat.coe_int_num_of_den_eq_one h]
  · rfl

theorem number?_held (e : Expr) (x : Rat) : (held e x).number? = some x := by
  rw [held]
  split
  · rfl
  · exact number?_normalize x

theorem normalize_held (e : Expr) (x : Rat) :
    (held e x).normalize = (Constant.ratio x).normalize := by
  rw [held]
  split
  · rfl
  · exact Constant.normalize_normalize _

theorem normalize_intCast (n : Int) : (Constant.ratio n).normalize = .whole n := by
  simp [Constant.normalize]

theorem held_minus (e : Expr) (x : Rat) (bits : Option Nat) :
    Constant.applyUnary .minus (held e x) bits = .ok (held (.unary .minus e) (-x)) := by
  have hsigned : isSignedFloat (.unary .minus e) = isSignedFloat e := rfl
  rw [held, held, hsigned]
  split
  · rfl
  · rw [Constant.normalize, Constant.normalize, Rat.neg_den]
    split
    · rw [Rat.neg_num]; rfl
    · rfl

theorem held_binary (op : BinaryOp) (l r : Expr) (x : Rat) :
    held (.binary op l r) x = (Constant.ratio x).normalize := rfl

/-- Whether an expression holds a number as an integer. -/
def HeldWhole (e : Expr) (x : Rat) : Prop := isSignedFloat e = false ∧ x.den = 1

theorem held_of_heldWhole {e : Expr} {x : Rat} (h : HeldWhole e x) : held e x = .whole x.num := by
  simp [held, h.1, Constant.normalize, h.2]

theorem held_of_not_heldWhole {e : Expr} {x : Rat} (h : ¬ HeldWhole e x) : held e x = .ratio x := by
  rw [held]
  split
  · rfl
  · rename_i hs
    rw [Constant.normalize, if_neg fun hx => h ⟨by simpa using hs, hx⟩]

theorem divide_of_heldWhole {l r : Expr} {x y : Rat} (hy : y ≠ 0) (hl : HeldWhole l x)
    (hr : HeldWhole r y) :
    Constant.divide (held l x) (held r y) x y = .ok (.whole (x.num.tdiv y.num)) := by
  rw [Constant.divide.eq_def, if_neg hy, held_of_heldWhole hl, held_of_heldWhole hr]

theorem divide_of_not_heldWhole {l r : Expr} {x y : Rat} (hy : y ≠ 0)
    (h : ¬ (HeldWhole l x ∧ HeldWhole r y)) :
    Constant.divide (held l x) (held r y) x y = .ok (Constant.ratio (x / y)).normalize := by
  rw [Constant.divide.eq_def, if_neg hy]
  by_cases hl : HeldWhole l x
  · rw [held_of_not_heldWhole fun hr => h ⟨hl, hr⟩]
    split
    · rename_i hr
      cases hr
    · rfl
  · rw [held_of_not_heldWhole hl]

/-- A quotient of integers is cut off to the exact one only when that is integral. -/
theorem normalize_div_eq_tdiv {a b : Int} (hb : b ≠ 0) :
    (Constant.ratio ((a : Rat) / b)).normalize = .whole (a.tdiv b) ↔ ((a : Rat) / b).den = 1 := by
  have hb' : (b : Rat) ≠ 0 := Int.cast_ne_zero.mpr hb
  rw [Constant.normalize]
  constructor
  · intro h
    split at h
    · assumption
    · cases h
  · intro h
    rw [if_pos h]
    have hexact : (a : Rat) = ((a : Rat) / b).num * b := by
      rw [Rat.coe_int_num_of_den_eq_one h, div_mul_cancel₀ _ hb']
    have hmul : a = ((a : Rat) / b).num * b := by exact_mod_cast hexact
    rw [hmul, Int.mul_tdiv_cancel _ hb, ← hmul]

/-! ### Values as they are meant to be -/

theorem isSignedFloat_of_means {e : Expr} {n : Int} (h : Means e (some (.integer n))) :
    isSignedFloat e = false := by
  generalize hv : some (Quantity.integer n) = v at h
  induction h generalizing n with
  | int | rune | binary => rfl
  | float => cases hv
  | paren _ ih | plus _ ih => exact ih hv
  | @minus e v _ ih =>
      cases v with
      | none => cases hv
      | some q =>
          cases q with
          | integer m => exact ih rfl
          | float x => cases hv

theorem value_neg (q : Quantity) : q.neg.value = -q.value := by
  cases q with
  | integer n => exact Int.cast_neg n
  | float x => rfl

theorem value_combine {f : Int → Int → Int} {g : Rat → Rat → Rat}
    (h : ∀ a b : Int, ((f a b : Int) : Rat) = g a b) (p q : Quantity) :
    (Quantity.combine f g p q).value = g p.value q.value := by
  cases p with
  | float => rfl
  | integer a =>
      cases q with
      | float => rfl
      | integer b => exact h a b

/-- What an expression comes to when it means `v`. -/
def told (e : Expr) : Option Quantity → Except Constant.Failure Typed
  | some q => .ok ⟨held e q.value, none⟩
  | none => .error (.refused .divisionByZero)

theorem told_integer {e : Expr} (h : isSignedFloat e = false) (n : Int) :
    told e (some (.integer n)) = .ok ⟨.whole n, none⟩ := by
  rw [told, held, h, Quantity.value]
  exact congrArg (fun c => Except.ok (Typed.mk c none)) (normalize_intCast n)

theorem resultType_none (op : BinaryOp) : resultType op none none = none := by
  rw [resultType, Option.none_or, ite_self]

theorem combine_of_isFloat {f : Int → Int → Int} {g : Rat → Rat → Rat} {p q : Quantity}
    (h : p.isFloat = true ∨ q.isFloat = true) :
    Quantity.combine f g p q = .float (g p.value q.value) := by
  cases p with
  | float => rfl
  | integer =>
      cases q with
      | float => rfl
      | integer => simp [Quantity.isFloat] at h

/-- Two numbers are integers by kind, or one of them is a float. -/
theorem integers_or_isFloat (p q : Quantity) :
    (∃ a b, p = .integer a ∧ q = .integer b) ∨ p.isFloat = true ∨ q.isFloat = true := by
  cases p with
  | float => exact .inr (.inl rfl)
  | integer a =>
      cases q with
      | float => exact .inr (.inr rfl)
      | integer b => exact .inl ⟨a, b, rfl, rfl⟩

/-- A quotient that is cut off is the exact one when no fraction is lost. -/
theorem tdiv_eq_div {l r : Expr} {p q : Quantity} (hl : Means l (some p)) (hr : Means r (some q))
    (hf : p.isFloat = true ∨ q.isFloat = true) (hq : q.value ≠ 0) (hlw : HeldWhole l p.value)
    (hrw : HeldWhole r q.value) (hlossy : ¬ LossyDivision (.binary .div l r)) :
    (Constant.ratio (p.value / q.value)).normalize =
      .whole (p.value.num.tdiv q.value.num) := by
  have hnum : q.value.num ≠ 0 := Rat.num_ne_zero.mpr hq
  have hden : (p.value / q.value).den = 1 := by
    by_contra h
    exact hlossy ⟨p, q, hl, hr, hf, hlw.2, hrw.2, hlw.1, hrw.1, h⟩
  have h := normalize_div_eq_tdiv (a := p.value.num) hnum
  rw [Rat.coe_int_num_of_den_eq_one hlw.2, Rat.coe_int_num_of_den_eq_one hrw.2] at h
  exact h.mpr hden

/-- The quotient of two numbers, when no fraction is lost. -/
theorem divide_held {l r : Expr} {p q : Quantity} (hl : Means l (some p)) (hr : Means r (some q))
    (hlossy : ¬ LossyDivision (.binary .div l r)) :
    Constant.divide (held l p.value) (held r q.value) p.value q.value =
      (told (.binary .div l r) (Quantity.apply .div p q)).map Typed.value := by
  by_cases hq : q.value = 0
  · rw [Quantity.apply, if_pos hq, Constant.divide.eq_def, if_pos hq]
    rfl
  · rw [Quantity.apply, if_neg hq]
    show _ = Except.ok (held (.binary .div l r) _)
    rw [held_binary]
    rcases integers_or_isFloat p q with ⟨a, b, rfl, rfl⟩ | hf
    -- integers by kind are held whole, so that both sides cut the quotient off
    · have ha : HeldWhole l a := ⟨isSignedFloat_of_means hl, rfl⟩
      have hb : HeldWhole r b := ⟨isSignedFloat_of_means hr, rfl⟩
      have hb0 : (b : Rat) ≠ 0 := hq
      show Constant.divide (held l a) (held r b) a b = _
      rw [divide_of_heldWhole hb0 ha hb]
      exact congrArg Except.ok (normalize_intCast (a.tdiv b)).symm
    · rw [combine_of_isFloat hf]
      -- a float by kind may be held whole as well; then nothing is lost
      by_cases hwhole : HeldWhole l p.value ∧ HeldWhole r q.value
      · rw [divide_of_heldWhole hq hwhole.1 hwhole.2,
          ← tdiv_eq_div hl hr hf hq hwhole.1 hwhole.2 hlossy]
        rfl
      · exact divide_of_not_heldWhole hq hwhole

/-- The result of an arithmetic operator, when no fraction is lost. -/
theorem applyBinary_held {op : BinaryOp} {l r : Expr} {p q : Quantity} (hop : op ∈ arithmeticOps)
    (hl : Means l (some p)) (hr : Means r (some q)) (hlossy : ¬ LossyDivision (.binary op l r)) :
    Constant.applyBinary op (held l p.value) (held r q.value) =
      (told (.binary op l r) (Quantity.apply op p q)).map Typed.value := by
  simp only [arithmeticOps, List.mem_cons, List.not_mem_nil, or_false] at hop
  rcases hop with rfl | rfl | rfl | rfl
  all_goals
    rw [Constant.applyBinary.eq_def]
    simp only [Constant.arithmetic, number?_held]
  · exact congrArg (fun x => Except.ok (Constant.ratio x).normalize)
      (value_combine (fun a b => Int.cast_add a b) p q).symm
  · exact congrArg (fun x => Except.ok (Constant.ratio x).normalize)
      (value_combine (fun a b => Int.cast_sub a b) p q).symm
  · exact congrArg (fun x => Except.ok (Constant.ratio x).normalize)
      (value_combine (fun a b => Int.cast_mul a b) p q).symm
  · exact divide_held hl hr hlossy

variable {names : String → Outcome Typed}

/-- **An expression comes to what it means**, when no literal is too long and no division loses a
fraction. -/
theorem denote_of_means {e : Expr} {v : Option Quantity} (h : Means e v)
    (hfair : Everywhere (fun e => ReadableLiteral e ∧ ¬ LossyDivision e) e) :
    denote types names iota e = some (told e v) := by
  induction h with
  | int h =>
      rw [denote, Constant.integerLiteral_eq h, Number.readOf_of_readable (hfair.1 _ _ h)]
      rw [told_integer rfl]
      rfl
  | rune h ht =>
      rw [denote, Constant.runeLiteral_eq h ht, told_integer rfl]
      rfl
  | float h =>
      rw [denote, Constant.floatLiteral_eq_ok h (hfair.1 _ h)]
      rfl
  | @paren e v _ ih =>
      rw [denote, ih hfair.2]
      cases v <;> rfl
  | @plus e v _ ih =>
      rw [denote, ih hfair.2]
      cases v <;> rfl
  | @minus e v _ ih =>
      rw [denote, ih hfair.2]
      cases v with
      | none => rfl
      | some q =>
          show some ((Constant.applyUnary .minus (held e q.value) _).map _) = _
          rw [held_minus]
          show _ = some (told (.unary .minus e) (some q.neg))
          rw [told, value_neg]
          rfl
  | @binary op l r v w hop hl hr ihl ihr =>
      rw [denote, ihl hfair.2.1, ihr hfair.2.2]
      cases v with
      | none => rfl
      | some p =>
          cases w with
          | none => rfl
          | some q =>
              have happly := applyBinary_held hop hl hr hfair.1.2
              show some ((Constant.applyBinary op (held l p.value) (held r q.value)).map _) = _
              rw [happly]
              show _ = some (told _ (Quantity.apply op p q))
              cases Quantity.apply op p q with
              | none => rfl
              | some x =>
                  show some (Except.ok (Typed.mk _ (resultType op none none))) = _
                  rw [resultType_none]
                  rfl

/-! ### Where the evaluator agrees with the arithmetic -/

/-- An outcome is the one that a number calls for: a value without a type that collapses to the
number, or a refused division. -/
def Gives (o : Except Constant.Failure Typed) : Option Quantity → Prop
  | some q => ∃ t, o = .ok t ∧ t.type = none ∧
      t.value.normalize = (Constant.ratio q.value).normalize
  | none => o = .error (.refused .divisionByZero)

/-- From any progress, an expression is evaluated to what it means, and nothing is kept. -/
def Agrees (types : Types) (lookup : String → Search Typed) (iota : Nat) (e : Expr) : Prop :=
  ∀ v, Means e v → ∀ p, ∃ o, (evaluate types lookup iota e).run p = (o, p) ∧ Gives o v

theorem gives_told (e : Expr) (v : Option Quantity) : Gives (told e v) v := by
  cases v with
  | none => rfl
  | some q => exact ⟨_, rfl, rfl, normalize_held e q.value⟩

/-- A literal that is too long means a number and is refused. -/
theorem refused_of_not_readable {e : Expr} (h : ¬ ReadableLiteral e) :
    (∃ q, Means e (some q)) ∧ ∃ cause, denote types names iota e = some (.error cause) := by
  cases e with
  | int text =>
      simp only [ReadableLiteral, not_forall] at h
      obtain ⟨base, ds, hform, hr⟩ := h
      refine ⟨⟨_, .int hform⟩, ?_⟩
      rw [denote, Constant.integerLiteral_eq hform, Number.readOf_of_not_readable hr]
      exact ⟨_, rfl⟩
  | float text =>
      simp only [ReadableLiteral, not_forall] at h
      obtain ⟨d, hform, hr⟩ := h
      obtain ⟨fault, hc⟩ := Constant.floatLiteral_eq_error hform hr
      refine ⟨⟨_, .float hform⟩, .fault fault, ?_⟩
      rw [denote, hc]
      rfl
  | _ => exact (h trivial).elim

/-- What an expression comes to is what it gives, where it agrees. -/
theorem Agrees.gives {lookup : String → Search Typed} {e : Expr} {v : Option Quantity}
    {o : Except Constant.Failure Typed} (h : Agrees types lookup iota e) (hv : Means e v)
    (hd : denote types (fun _ => none) iota e = some o) : Gives o v := by
  obtain ⟨o', hrun, hgives⟩ := h v hv {}
  rw [evaluate_of_denote hd lookup {}] at hrun
  cases hrun
  exact hgives

theorem readable_of_agrees {lookup : String → Search Typed} {e : Expr}
    (h : Agrees types lookup iota e) : ReadableLiteral e := by
  by_contra hr
  obtain ⟨⟨q, hq⟩, cause, hc⟩ := refused_of_not_readable hr
  obtain ⟨t, ht, -⟩ := h.gives hq hc
  cases ht

/-- A division that loses a fraction does not agree. -/
theorem not_agrees_of_lossy {lookup : String → Search Typed} {l r : Expr}
    (hl : Everywhere (fun e => ReadableLiteral e ∧ ¬ LossyDivision e) l)
    (hr : Everywhere (fun e => ReadableLiteral e ∧ ¬ LossyDivision e) r)
    (hlossy : LossyDivision (.binary .div l r)) :
    ¬ Agrees types lookup iota (.binary .div l r) := by
  intro h
  obtain ⟨p, q, hp, hq, hf, hpd, hqd, hls, hrs, hden⟩ := hlossy
  have hp0 : HeldWhole l p.value := ⟨hls, hpd⟩
  have hq0 : HeldWhole r q.value := ⟨hrs, hqd⟩
  have hzero : q.value ≠ 0 := by
    intro hzero
    rw [hzero, div_zero] at hden
    exact hden rfl
  -- what the division means
  have hmeans : Means (.binary .div l r) (some (.float (p.value / q.value))) := by
    have happly : Quantity.apply .div p q = some (.float (p.value / q.value)) := by
      rw [Quantity.apply, if_neg hzero, combine_of_isFloat hf]
    rw [← happly]
    exact .binary (by decide) hp hq
  -- and what it comes to
  have hdenote : denote types (fun _ => none) iota (.binary .div l r) =
      some (.ok ⟨.whole (p.value.num.tdiv q.value.num), none⟩) := by
    rw [denote, denote_of_means hp hl, denote_of_means hq hr]
    show some ((Constant.applyBinary .div (held l p.value) (held r q.value)).map _) = _
    rw [Constant.applyBinary.eq_def]
    simp only [Constant.arithmetic, number?_held]
    rw [divide_of_heldWhole hzero hp0 hq0]
    show some (Except.ok (Typed.mk _ (resultType .div none none))) = _
    rw [resultType_none]
  obtain ⟨t, ht, -, hvalue⟩ := h.gives hmeans hdenote
  cases ht
  have hnum : q.value.num ≠ 0 := Rat.num_ne_zero.mpr hzero
  have hexact := normalize_div_eq_tdiv (a := p.value.num) hnum
  rw [Rat.coe_int_num_of_den_eq_one hpd, Rat.coe_int_num_of_den_eq_one hqd] at hexact
  exact hden (hexact.mp hvalue.symm)

/-- What holds of an expression whose parts all have a property, holds of all its parts. -/
theorem Everywhere.of {P Q : Expr → Prop} (hPQ : ∀ e, Everywhere P e → Q e) {e : Expr}
    (h : Everywhere P e) : Everywhere Q e := by
  induction e with
  | paren e ih => exact ⟨hPQ _ h, ih h.2⟩
  | unary op e ih => exact ⟨hPQ _ h, ih h.2⟩
  | binary op l r ihl ihr => exact ⟨hPQ _ h, ihl h.2.1, ihr h.2.2⟩
  | conversion type e ih => exact ⟨hPQ _ h, ih h.2⟩
  | _ => exact hPQ _ h

/-- **The arithmetic of untyped constants.**  All parts of an expression are evaluated to what they
mean if and only if no literal in it is too long and no division in it loses a fraction. -/
theorem agrees_everywhere_iff (types : Types) (lookup : String → Search Typed) (iota : Nat)
    (e : Expr) :
    Everywhere (Agrees types lookup iota) e ↔
      Everywhere (fun e => ReadableLiteral e ∧ ¬ LossyDivision e) e := by
  constructor
  · intro h
    induction e with
    | paren e ih => exact ⟨⟨trivial, not_false⟩, ih h.2⟩
    | unary op e ih => exact ⟨⟨trivial, not_false⟩, ih h.2⟩
    | conversion type e ih => exact ⟨⟨trivial, not_false⟩, ih h.2⟩
    | binary op l r ihl ihr =>
        have hl := ihl h.2.1
        have hr := ihr h.2.2
        refine ⟨⟨trivial, fun hlossy => ?_⟩, hl, hr⟩
        cases op with
        | div => exact not_agrees_of_lossy hl hr hlossy h.1
        | _ => exact hlossy
    | _ => exact ⟨readable_of_agrees h, not_false⟩
  · refine Everywhere.of fun e hfair v hv p => ?_
    exact ⟨told e v, evaluate_of_denote (denote_of_means hv hfair) lookup p, gives_told e v⟩

/-- Half of `1.5 + 1.5` is meant to be three halves; the sum is integral, so its half is cut off. -/
theorem half_of_sum_loses_fraction : ∃ e, Means e (some (.float (3 / 2))) ∧
    ∀ (types : Types) (lookup : String → Search Typed) (iota : Nat) (p : Progress),
      (evaluate types lookup iota e).run p = (.ok ⟨.whole 1, none⟩, p) := by
  refine ⟨.binary .div (.paren (.binary .add (.float "1.5") (.float "1.5"))) (.int "2"), ?_, ?_⟩
  · have hform : FloatForm "1.5".toList ⟨[1], [5], none⟩ :=
      .point (w := ['1']) (f := ['5']) (x := []) (.last rfl) (.some (.last rfl)) .none
    have hfloat : Means (.float "1.5") (some (.float (3 / 2))) := by
      have hvalue : FloatDigits.value ⟨[1], [5], none⟩ = 3 / 2 := by decide +kernel
      exact hvalue ▸ .float hform
    have hdigits : IntegerForm "2".toList 10 [2] := .decimal (.last rfl) (by decide)
    have htwo : Means (.int "2") (some (.integer 2)) := .int hdigits
    have hsum : Means (.binary .add (.float "1.5") (.float "1.5")) _ :=
      .binary (by decide) hfloat hfloat
    have hquotient : Means (.binary .div (.paren (.binary .add (.float "1.5") (.float "1.5")))
      (.int "2")) _ := .binary (by decide) (.paren hsum) htwo
    have hvalue : ((3 / 2 : Rat) + 3 / 2) / (2 : Int) = 3 / 2 := by norm_num
    simpa [Quantity.apply, Quantity.combine, Quantity.value, hvalue] using hquotient
  · intro types lookup iota p
    refine evaluate_of_denote ?_ lookup p
    simp only [denote, Outcome.bind]
    decide +kernel

end EnumHelpers.Package
