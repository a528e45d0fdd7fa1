import EnumHelpers.Package.Load
import EnumHelpers.Proofs.Package.Arithmetic

/-!
# Proofs — a name and the expression that it stands for

A constant without a type may be written out where it is mentioned: its expression in parentheses
takes the place of its name.  The name stands for the collapsed value of the expression, and the
expression for the value as it is.  The two differ when the expression is a float literal under
signs whose value is integral, and then only a division can tell: with the name it is one of
integers, with the literal an exact one.

A mention is reached by steps outward (`Frame`), and the mention loses a fraction when the first
step past signs and parentheses is a division of integers that does not come out even (`Loses`).

* `Mention.final_writtenOut`: where no fraction is lost, all names stand for what they stood for.
-/

namespace EnumHelpers.Package
open Constant (BinaryOp UnaryOp)

/-! ### Expressions around a place -/

/-- A step outward from a place in an expression. -/
inductive Frame where
  | paren
  | unary (op : UnaryOp)
  /-- The place is the left operand. -/
  | left (op : BinaryOp) (r : Expr)
  /-- The place is the right operand. -/
  | right (op : BinaryOp) (l : Expr)
  | conversion (type : String)
  deriving DecidableEq, Repr

/-- The expression that a step leads to from `x`. -/
def Frame.fill : Frame → Expr → Expr
  | .paren, x => .paren x
  | .unary op, x => .unary op x
  | .left op r, x => .binary op x r
  | .right op l, x => .binary op l x
  | .conversion type, x => .conversion type x

/-- The expression that steps lead to from `x`, the first step first. -/
def fill (c : List Frame) (x : Expr) : Expr := c.foldl (fun x f => f.fill x) x

/-- Whether a step leads out of parentheses or past a sign. -/
def Frame.isSign : Frame → Bool
  | .paren | .unary .plus | .unary .minus => true
  | _ => false

/-- Whether an expression speaks of `iota`. -/
def usesIota : Expr → Bool
  | .iota => true
  | .paren e | .unary _ e | .conversion _ e => usesIota e
  | .binary _ l r => usesIota l || usesIota r
  | _ => false

variable {types : Types} {names : String → Outcome Typed} {iota : Nat} {x y : Expr}

theorem denote_of_not_usesIota {e : Expr} (h : usesIota e = false) (i j : Nat) :
    denote types names i e = denote types names j e := by
  induction e with
  | iota => cases h
  | paren e ih => exact ih h
  | unary op e ih => rw [denote, ih h, denote]
  | binary op l r ihl ihr =>
      obtain ⟨hl, hr⟩ := Bool.or_eq_false_iff.mp h
      rw [denote, ihl hl, ihr hr, denote]
  | conversion type e ih => rw [denote, ih h, denote]
  | _ => rfl

theorem denote_frame_congr (f : Frame)
    (h : denote types names iota x = denote types names iota y) :
    denote types names iota (f.fill x) = denote types names iota (f.fill y) := by
  cases f with
  | paren => exact h
  | unary op => simp only [Frame.fill, denote, h]
  | left op r => simp only [Frame.fill, denote, h]
  | right op l => simp only [Frame.fill, denote, h]
  | conversion type => simp only [Frame.fill, denote, h]

theorem denote_fill_congr {c : List Frame}
    (h : denote types names iota x = denote types names iota y) :
    denote types names iota (fill c x) = denote types names iota (fill c y) := by
  induction c generalizing x y with
  | nil => exact h
  | cons f c ih => exact ih (denote_frame_congr f h)

/-! ### Integers and integral rationals -/

theorem applyUnary_ratio {op : UnaryOp} (hp : op ≠ .plus) (hm : op ≠ .minus) (n : Int)
    (bits : Option Nat) :
    Constant.applyUnary op (.ratio n) bits = Constant.applyUnary op (.whole n) bits := by
  cases op with
  | plus => exact absurd rfl hp
  | minus => exact absurd rfl hm
  | _ => rfl

/-- An integral rational divides and is divided as the integer, unless a fraction is lost. -/
theorem applyBinary_ratio_left {op : BinaryOp} {n : Int} {v : Constant}
    (h : op = .div → ∀ b, v = .whole b → ((n : Rat) / b).den = 1) :
    Constant.applyBinary op (.ratio n) v = Constant.applyBinary op (.whole n) v := by
  cases op with
  | div =>
      cases v with
      | whole b =>
          have hden := h rfl b rfl
          show Constant.divide (.ratio n) (.whole b) n b = Constant.divide (.whole n) (.whole b) n b
          rw [Constant.divide.eq_def, Constant.divide.eq_def]
          split
          · rfl
          · rename_i hb
            rw [(normalize_div_eq_tdiv (Int.cast_ne_zero.mp hb)).mpr hden]
      | _ => rfl
  | _ => rfl

theorem applyBinary_ratio_right {op : BinaryOp} {n : Int} {v : Constant}
    (h : op = .div → ∀ a, v = .whole a → ((a : Rat) / n).den = 1) :
    Constant.applyBinary op v (.ratio n) = Constant.applyBinary op v (.whole n) := by
  cases op with
  | div =>
      cases v with
      | whole a =>
          have hden := h rfl a rfl
          show Constant.divide (.whole a) (.ratio n) a n = Constant.divide (.whole a) (.whole n) a n
          rw [Constant.divide.eq_def, Constant.divide.eq_def]
          split
          · rfl
          · rename_i hn
            rw [(normalize_div_eq_tdiv (Int.cast_ne_zero.mp hn)).mpr hden]
      | _ => rfl
  | _ => rfl

/-! ### Going outward -/

/-- A division of two integers that does not come out even. -/
def CutOff (types : Types) (names : String → Outcome Typed) (iota : Nat) : Expr → Prop
  | .binary .div l r => ∃ a b s t, denote types names iota l = some (.ok ⟨.whole a, s⟩) ∧
      denote types names iota r = some (.ok ⟨.whole b, t⟩) ∧ ((a : Rat) / b).den ≠ 1
  | _ => False

/-- Going outward from `x`, past signs and parentheses, the first step leads to a division that is
cut off. -/
def Loses (types : Types) (names : String → Outcome Typed) (iota : Nat) : Expr → List Frame → Prop
  | _, [] => False
  | x, f :: c => if f.isSign then Loses types names iota (f.fill x) c
      else CutOff types names iota (f.fill x)

/-- Two outcomes are equal, or an integer and the same number as a rational. -/
def Alike (a b : Outcome Typed) : Prop :=
  a = b ∨ ∃ n t, a = some (.ok ⟨.whole n, t⟩) ∧ b = some (.ok ⟨.ratio (n : Int), t⟩)

/-- The outcome with a collapsed value. -/
def collapse (a : Outcome Typed) : Outcome Typed :=
  a.map (·.map fun t => ⟨t.value.normalize, t.type⟩)

theorem Alike.collapse {a b : Outcome Typed} (h : Alike a b) : collapse a = collapse b := by
  rcases h with rfl | ⟨n, t, rfl, rfl⟩
  · rfl
  · simp only [Package.collapse, Option.map_some, Except.map, normalize_intCast]
    rfl

/-- Past a sign, an integer and the same number as a rational stay what they are. -/
theorem denote_sign {f : Frame} (hf : f.isSign = true) {n : Int} {t : Option String}
    (hx : denote types names iota x = some (.ok ⟨.whole n, t⟩))
    (hy : denote types names iota y = some (.ok ⟨.ratio n, t⟩)) :
    ∃ k : Int, denote types names iota (f.fill x) = some (.ok ⟨.whole k, t⟩) ∧
      denote types names iota (f.fill y) = some (.ok ⟨.ratio k, t⟩) := by
  cases f with
  | paren => exact ⟨n, hx, hy⟩
  | unary op =>
      simp only [Frame.fill, denote, hx, hy]
      cases op with
      | plus => exact ⟨n, rfl, rfl⟩
      | minus =>
          refine ⟨-n, rfl, ?_⟩
          rw [Int.cast_neg]
          rfl
      | _ => cases hf
  | _ => cases hf

/-- Past any other step, they give the same, unless the step leads to a division that is cut
off. -/
theorem denote_frame_eq {f : Frame} (hf : f.isSign = false) {n : Int} {t : Option String}
    (hx : denote types names iota x = some (.ok ⟨.whole n, t⟩))
    (hy : denote types names iota y = some (.ok ⟨.ratio n, t⟩))
    (hcut : ¬ CutOff types names iota (f.fill x)) :
    denote types names iota (f.fill x) = denote types names iota (f.fill y) := by
  cases f with
  | paren => cases hf
  | unary op =>
      simp only [Frame.fill, denote, hx, hy, Outcome.bind]
      rw [applyUnary_ratio]
      · rintro rfl
        cases hf
      · rintro rfl
        cases hf
  | left op r =>
      simp only [Frame.fill, denote, hx, hy, Outcome.bind]
      cases hr : denote types names iota r with
      | none => rfl
      | some o =>
          cases o with
          | error cause => rfl
          | ok u =>
              dsimp only
              rw [applyBinary_ratio_left]
              rintro rfl b hb
              by_contra hden
              refine hcut ⟨n, b, t, u.type, hx, ?_, hden⟩
              rw [hr, ← hb]
  | right op l =>
      simp only [Frame.fill, denote, hx, hy, Outcome.bind]
      cases hl : denote types names iota l with
      | none => rfl
      | some o =>
          cases o with
          | error cause => rfl
          | ok u =>
              dsimp only
              rw [applyBinary_ratio_right]
              rintro rfl a ha
              by_contra hden
              refine hcut ⟨a, n, u.type, t, ?_, hx, hden⟩
              rw [hl, ← ha]
  | conversion type =>
      simp only [Frame.fill, denote, hx, hy, Outcome.bind, normalize_intCast]
      rfl

/-- What stands alike at a place stands alike in all that holds the place, where no fraction is
lost. -/
theorem alike_fill {c : List Frame}
    (h : Alike (denote types names iota x) (denote types names iota y))
    (hloses : ¬ Loses types names iota x c) :
    Alike (denote types names iota (fill c x)) (denote types names iota (fill c y)) := by
  induction c generalizing x y with
  | nil => exact h
  | cons f c ih =>
      rcases h with heq | ⟨n, t, hx, hy⟩
      · exact .inl (denote_fill_congr heq)
      · rw [Loses] at hloses
        -- the two stay an integer and a rational past a sign, and meet again past anything else
        split at hloses
        · rename_i hf
          obtain ⟨k, hk, hk'⟩ := denote_sign hf hx hy
          exact ih (.inr ⟨k, t, hk, hk'⟩) hloses
        · rename_i hf
          have heq := denote_frame_eq (by simpa using hf) hx hy hloses
          exact .inl (denote_fill_congr (c := c) heq)

/-- No fraction is lost in the steps up to one when none is in all of them. -/
theorem not_loses_take {c : List Frame} (h : ¬ Loses types names iota x c) (i : Nat) :
    ¬ Loses types names iota x (c.take i) := by
  induction c generalizing x i with
  | nil => rwa [List.take_nil]
  | cons f c ih =>
      cases i with
      | zero => exact id
      | succ i =>
          rw [Loses] at h
          rw [List.take_succ_cons, Loses]
          split
          · rename_i hf
            rw [if_pos hf] at h
            exact ih h i
          · rename_i hf
            rwa [if_neg hf] at h

theorem applyBinary_div_whole {a b : Int} (hb : b ≠ 0) :
    Constant.applyBinary .div (.whole a) (.whole b) = .ok (.whole (a.tdiv b)) := by
  show Constant.divide (.whole a) (.whole b) a b = _
  rw [Constant.divide.eq_def, if_neg (Int.cast_ne_zero.mpr hb)]

theorem applyBinary_div_ratio_left {a b : Int} (hb : b ≠ 0) :
    Constant.applyBinary .div (.ratio a) (.whole b) = .ok (Constant.ratio (a / b)).normalize := by
  show Constant.divide (.ratio a) (.whole b) a b = _
  rw [Constant.divide.eq_def, if_neg (Int.cast_ne_zero.mpr hb)]

theorem applyBinary_div_ratio_right {a b : Int} (hb : b ≠ 0) :
    Constant.applyBinary .div (.whole a) (.ratio b) = .ok (Constant.ratio (a / b)).normalize := by
  show Constant.divide (.whole a) (.ratio b) a b = _
  rw [Constant.divide.eq_def, if_neg (Int.cast_ne_zero.mpr hb)]

/-- A quotient that is cut off is not the exact one. -/
theorem collapse_tdiv_ne {a b : Int} {t : Option String} (hden : ((a : Rat) / b).den ≠ 1) :
    b ≠ 0 ∧ collapse (some (.ok ⟨.whole (a.tdiv b), t⟩)) ≠
      collapse (some (.ok ⟨(Constant.ratio ((a : Rat) / b)).normalize, t⟩)) := by
  have hb : b ≠ 0 := by
    rintro rfl
    rw [Int.cast_zero, div_zero] at hden
    exact hden rfl
  refine ⟨hb, fun heq => ?_⟩
  simp only [collapse, Option.map_some, Except.map, Constant.normalize_normalize] at heq
  injection heq with heq
  injection heq with heq
  injection heq with heq
  exact hden ((normalize_div_eq_tdiv hb).mp heq.symm)

/-- A division that is cut off gives something else with a rational in the place of the integer. -/
theorem collapse_of_cutOff {f : Frame} {n : Int} {t : Option String}
    (hx : denote types names iota x = some (.ok ⟨.whole n, t⟩))
    (hy : denote types names iota y = some (.ok ⟨.ratio n, t⟩))
    (hcut : CutOff types names iota (f.fill x)) :
    collapse (denote types names iota (f.fill x)) ≠
      collapse (denote types names iota (f.fill y)) := by
  cases f with
  | left op r =>
      cases op with
      | div =>
          obtain ⟨a, b, s, u, ha, hb, hden⟩ := hcut
          rw [hx] at ha
          cases ha
          obtain ⟨hb0, hne⟩ := collapse_tdiv_ne (t := resultType .div t u) hden
          simp only [Frame.fill, denote, hx, hy, hb, Outcome.bind]
          rw [applyBinary_div_whole hb0, applyBinary_div_ratio_left hb0]
          exact hne
      | _ => exact hcut.elim
  | right op l =>
      cases op with
      | div =>
          obtain ⟨a, b, s, u, ha, hb, hden⟩ := hcut
          rw [hx] at hb
          cases hb
          obtain ⟨hn0, hne⟩ := collapse_tdiv_ne (t := resultType .div s t) hden
          simp only [Frame.fill, denote, hx, hy, ha, Outcome.bind]
          rw [applyBinary_div_whole hn0, applyBinary_div_ratio_right hn0]
          exact hne
      | _ => exact hcut.elim
  | _ => exact hcut.elim

/-- A sign leaves what is no integer no integer. -/
theorem not_whole_sign {f : Frame} (hf : f.isSign = true)
    (h : ∀ n t, denote types names iota x ≠ some (.ok ⟨.whole n, t⟩)) (n : Int)
    (t : Option String) : denote types names iota (f.fill x) ≠ some (.ok ⟨.whole n, t⟩) := by
  cases f with
  | paren => exact h n t
  | unary op =>
      intro heq
      obtain ⟨u, hu, heq⟩ := Outcome.bind_eq_ok.mp heq
      obtain ⟨v, hv, heq⟩ := map_eq_ok.mp (Option.some.inj heq)
      obtain ⟨w, t'⟩ := u
      cases heq
      cases op with
      | plus =>
          cases hv
          exact h n t' hu
      | minus =>
          cases w with
          | whole k => exact h k t' hu
          | _ => cases hv
      | _ => cases hf
  | _ => cases hf

/-- The operands of a division that is cut off are integers. -/
theorem CutOff.whole {f : Frame} (h : CutOff types names iota (f.fill x)) :
    ∃ n t, denote types names iota x = some (.ok ⟨.whole n, t⟩) := by
  cases f with
  | left op r =>
      cases op with
      | div =>
          obtain ⟨a, b, s, t, ha, -, -⟩ := h
          exact ⟨a, s, ha⟩
      | _ => exact h.elim
  | right op l =>
      cases op with
      | div =>
          obtain ⟨a, b, s, t, -, hb, -⟩ := h
          exact ⟨b, t, hb⟩
      | _ => exact h.elim
  | _ => exact h.elim

/-- What is no integer loses no fraction. -/
theorem not_loses_of_not_whole {c : List Frame}
    (h : ∀ n t, denote types names iota x ≠ some (.ok ⟨.whole n, t⟩)) :
    ¬ Loses types names iota x c := by
  induction c generalizing x with
  | nil => exact id
  | cons f c ih =>
      rw [Loses]
      split
      · rename_i hf
        exact ih (not_whole_sign hf h)
      · intro hcut
        obtain ⟨n, t, hx⟩ := hcut.whole
        exact h n t hx

/-- Where a fraction is lost, some part that holds the place has another value. -/
theorem not_loses_of_parts {c : List Frame} {n : Int} {t : Option String}
    (hx : denote types names iota x = some (.ok ⟨.whole n, t⟩))
    (hy : denote types names iota y = some (.ok ⟨.ratio n, t⟩))
    (h : ∀ i, collapse (denote types names iota (fill (c.take i) x)) =
      collapse (denote types names iota (fill (c.take i) y))) :
    ¬ Loses types names iota x c := by
  induction c generalizing x y n with
  | nil => exact id
  | cons f c ih =>
      rw [Loses]
      split
      · rename_i hf
        obtain ⟨k, hk, hk'⟩ := denote_sign hf hx hy
        exact ih hk hk' fun i => h (i + 1)
      · exact fun hcut => collapse_of_cutOff hx hy hcut (h 1)

theorem CutOff.mono {names' : String → Outcome Typed} (hn : ∀ s, Extends (names s) (names' s))
    (h : CutOff types names iota x) : CutOff types names' iota x := by
  unfold CutOff at h
  split at h
  · obtain ⟨a, b, s, t, ha, hb, hden⟩ := h
    exact ⟨a, b, s, t, denote_extends hn _ _ ha, denote_extends hn _ _ hb, hden⟩
  · exact h.elim

/-- A fraction that is lost is lost when the names stand for more. -/
theorem loses_mono {names' : String → Outcome Typed} (hn : ∀ s, Extends (names s) (names' s))
    {c : List Frame} (h : Loses types names iota x c) : Loses types names' iota x c := by
  induction c generalizing x with
  | nil => exact h
  | cons f c ih =>
      rw [Loses] at h ⊢
      split
      · rename_i hf
        rw [if_pos hf] at h
        exact ih h
      · rename_i hf
        rw [if_neg hf] at h
        exact h.mono hn

/-! ### A name in a package -/

section Hole
variable {decls : List ConstantDecl} {decl : ConstantDecl} {name : String} {e : Expr}

/-- A literal under signs is a rational, unless it is refused. -/
theorem denote_signedFloat (he : isSignedFloat e = true) :
    (∃ q, denote types names iota e = some (.ok ⟨.ratio q, none⟩)) ∨
      ∃ cause, denote types names iota e = some (.error cause) := by
  induction e with
  | float text =>
      rw [denote]
      cases Constant.floatLiteral text with
      | error cause => exact .inr ⟨cause, rfl⟩
      | ok q => exact .inl ⟨q, rfl⟩
  | paren e ih => exact ih he
  | unary op e ih =>
      cases op with
      | plus | minus =>
          rw [denote]
          rcases ih he with ⟨q, hq⟩ | ⟨cause, hc⟩
          · rw [hq]
            exact .inl ⟨_, rfl⟩
          · rw [hc]
            exact .inr ⟨cause, rfl⟩
      | _ => cases he
  | _ => cases he

theorem normal_of_final {s : String} {t : Typed} (h : final types decls s = some (.ok t)) :
    Normal t.value := by
  obtain ⟨n, hn⟩ := final_eq_some.mp h
  exact normal_of_meaning hn

/-- A name without a type stands for the collapsed value of its expression. -/
theorem denote_name (hd : declOf? decls name = some decl) (he : decl.expression = some e)
    (ht : decl.type = none) (hi : usesIota e = false) :
    denote types (final types decls) iota (.name name) =
      collapse (denote types (final types decls) iota (.paren e)) := by
  have hsettled : decl.settled = fun t => ⟨t.value.normalize, t.type⟩ := by
    funext t
    rw [ConstantDecl.settled, ht, Option.none_or]
  show final types decls name = collapse (denote types (final types decls) iota e)
  rw [← declared_final, declared, hd]
  simp only [he]
  rw [hsettled, denote_of_not_usesIota hi decl.iota iota]
  rfl

theorem collapse_denote (he : isSignedFloat e = false) :
    collapse (denote types (final types decls) iota e) =
      denote types (final types decls) iota e := by
  cases h : denote types (final types decls) iota e with
  | none => rfl
  | some o =>
      cases o with
      | error cause => rfl
      | ok t =>
          have hnormal : t.value.normalize = t.value :=
            normal_of_denote (fun _ _ => normal_of_final) h he
          simp only [collapse, Option.map_some, Except.map, hnormal]

/-- A name and its expression in parentheses stand alike. -/
theorem alike_name (hd : declOf? decls name = some decl) (he : decl.expression = some e)
    (ht : decl.type = none) (hi : usesIota e = false) :
    Alike (denote types (final types decls) iota (.name name))
      (denote types (final types decls) iota (.paren e)) := by
  rw [denote_name hd he ht hi]
  have hparen : isSignedFloat (.paren e) = isSignedFloat e := rfl
  cases hs : isSignedFloat e with
  | false => exact .inl (collapse_denote (hparen.trans hs))
  | true =>
      rcases denote_signedFloat (hparen.trans hs) with ⟨q, hq⟩ | ⟨cause, hc⟩
      · rw [hq]
        -- only an integral value is collapsed
        by_cases hden : q.den = 1
        · refine .inr ⟨q.num, none, ?_, ?_⟩
          · simp only [collapse, Option.map_some, Except.map, Constant.normalize, if_pos hden]
          · rw [Rat.coe_int_num_of_den_eq_one hden]
        · refine .inl ?_
          simp only [collapse, Option.map_some, Except.map, Constant.normalize, if_neg hden]
      · rw [hc]
        exact .inl rfl

/-- An expression has one value with the name and with what it stands for, where no fraction is
lost. -/
theorem collapse_fill (hd : declOf? decls name = some decl) (he : decl.expression = some e)
    (ht : decl.type = none) (hi : usesIota e = false) {c : List Frame}
    (h : ¬ (isSignedFloat e = true ∧ Loses types (final types decls) iota (.name name) c)) :
    collapse (denote types (final types decls) iota (fill c (.name name))) =
      collapse (denote types (final types decls) iota (fill c (.paren e))) := by
  cases hs : isSignedFloat e with
  | true => exact (alike_fill (alike_name hd he ht hi) fun hl => h ⟨hs, hl⟩).collapse
  | false =>
      refine congrArg collapse (denote_fill_congr ?_)
      rw [denote_name hd he ht hi]
      exact collapse_denote hs

end Hole

/-! ### Packages that differ in one expression -/

/-- A declaration with another expression. -/
def withExpression (m : ConstantDecl) (x : Expr) : ConstantDecl := { m with expression := some x }

/-- The collapsed value that an expression has in a package. -/
noncomputable def worth (types : Types) (decls : List ConstantDecl) (iota : Nat) (x : Expr) :
    Outcome Typed :=
  collapse (denote types (final types decls) iota x)

section Replace
variable {before after : List ConstantDecl} {m : ConstantDecl}

/-- A name has the same declaration in both packages, or it has the one that differs. -/
theorem declOf?_replace (before after : List ConstantDecl) (m : ConstantDecl) (x y : Expr)
    (s : String) :
    declOf? (before ++ withExpression m x :: after) s =
        declOf? (before ++ withExpression m y :: after) s ∨
      s = m.name ∧
        declOf? (before ++ withExpression m x :: after) s = some (withExpression m x) ∧
        declOf? (before ++ withExpression m y :: after) s = some (withExpression m y) := by
  -- of several declarations of a name the last one counts, so those in `after` come first
  have split : ∀ x, declOf? (before ++ withExpression m x :: after) s =
      (declOf? after s).or
        (if m.name == s then some (withExpression m x) else declOf? before s) := by
    intro x
    rw [declOf?, List.reverse_append, List.reverse_cons, List.append_assoc, List.find?_append,
      List.singleton_append, List.find?_cons]
    congr 1
    cases hs : m.name == s with
    | true => simp [withExpression, hs]
    | false => simp [withExpression, hs, declOf?]
  rw [split, split]
  cases declOf? after s with
  | some decl => exact .inl rfl
  | none =>
      cases hs : m.name == s with
      | true => exact .inr ⟨(by simpa using hs : m.name = s).symm, rfl, rfl⟩
      | false => exact .inl rfl

theorem map_settled_collapse (decl : ConstantDecl) (a : Outcome Typed) :
    (collapse a).map (·.map decl.settled) = a.map (·.map decl.settled) := by
  cases a with
  | none => rfl
  | some o =>
      cases o with
      | error cause => rfl
      | ok t =>
          simp only [collapse, Option.map_some, Except.map, ConstantDecl.settled,
            Constant.normalize_normalize]

/-- What a name is declared to stand for is the same where the expressions are worth the same. -/
theorem declared_replace (h : collapse (denote types names m.iota x) =
    collapse (denote types names m.iota y)) (s : String) :
    declared types (before ++ withExpression m x :: after) names s =
      declared types (before ++ withExpression m y :: after) names s := by
  rcases declOf?_replace before after m x y s with heq | ⟨-, hx, hy⟩
  · rw [declared, declared, heq]
  · rw [declared, declared, hx, hy]
    show (denote types names m.iota x).map (·.map m.settled) =
      (denote types names m.iota y).map (·.map m.settled)
    rw [← map_settled_collapse, h, map_settled_collapse]

/-- **Names stand for the same** when the expression that differs is worth the same in both
packages. -/
theorem final_extends_of_worth (h : worth types (before ++ withExpression m x :: after) m.iota x =
    worth types (before ++ withExpression m y :: after) m.iota y) (s : String) :
    Extends (final types (before ++ withExpression m x :: after) s)
      (final types (before ++ withExpression m y :: after) s) := by
  -- by depth: below it the names stand for the same, and the one that differs is worth the same
  have hdepth : ∀ n s, Extends (meaning types (before ++ withExpression m x :: after) n s)
      (final types (before ++ withExpression m y :: after) s) := by
    intro n
    induction n with
    | zero => exact fun s => .none
    | succ n ih =>
        intro s
        rcases declOf?_replace before after m x y s with heq | ⟨rfl, hx, hy⟩
        · rw [meaning, ← declared_final, declared, heq, ← declared]
          exact declared_extends ih s
        · refine (meaning_extends_final (n + 1) m.name).trans ?_
          rw [← declared_final, ← declared_final, declared, declared, hx, hy]
          show Extends ((denote types _ m.iota x).map (·.map m.settled))
            ((denote types _ m.iota y).map (·.map m.settled))
          rw [← map_settled_collapse, ← worth, h, worth, map_settled_collapse]
          exact .refl _
  intro o ho
  obtain ⟨n, hn⟩ := final_eq_some.mp ho
  exact hdepth n s o hn

/-- The entries of the constants of a package in its table. -/
def records (types : Types) (decls : List ConstantDecl) :
    Except EnumHelpers.Failure (List ConstantRecord) :=
  (recordAll types decls {} decls).map (List.map recordOf)

theorem records_eq (types : Types) (decls : List ConstantDecl) :
    records types decls = decls.mapM fun decl => (recordedFor types decls decl).map recordOf := by
  rw [records, recordAll_eq decls sound_empty, map_mapM]

/-- The entry of a constant does not show its expression. -/
theorem recordOf_withExpression (decls : List ConstantDecl) (m : ConstantDecl) (x y : Expr) :
    (recordedFor types decls (withExpression m x)).map recordOf =
      (recordedFor types decls (withExpression m y)).map recordOf := by
  have hrecorded : recorded (withExpression m x) (outcome types decls m.name) =
    recorded (withExpression m y) (outcome types decls m.name) := rfl
  show ((recorded (withExpression m x) (outcome types decls m.name)).map _).map recordOf =
    ((recorded (withExpression m y) (outcome types decls m.name)).map _).map recordOf
  rw [hrecorded]
  cases recorded (withExpression m y) (outcome types decls m.name) with
  | error cause => rfl
  | ok here => rfl

/-- The tables show the same entries when the names stand for the same. -/
theorem records_eq_of_final
    (h : ∀ s, final types (before ++ withExpression m x :: after) s =
      final types (before ++ withExpression m y :: after) s) :
    records types (before ++ withExpression m x :: after) =
      records types (before ++ withExpression m y :: after) := by
  have hfor : recordedFor types (before ++ withExpression m x :: after) =
      recordedFor types (before ++ withExpression m y :: after) := by
    funext decl
    rw [recordedFor, recordedFor, outcome, outcome, h]
  rw [records_eq, records_eq, hfor, List.mapM_append, List.mapM_append, List.mapM_cons,
    List.mapM_cons, recordOf_withExpression _ m x y]

end Replace

/-! ### Writing a name out -/

/-- A package in which a constant without a type, whose expression does not speak of `iota`, is
mentioned by another constant. -/
structure Mention where
  before : List ConstantDecl
  /-- The constant that holds the mention. -/
  holder : ConstantDecl
  after : List ConstantDecl
  /-- The steps from the mention outward to the whole expression. -/
  steps : List Frame
  /-- The declaration that is mentioned. -/
  decl : ConstantDecl
  expression : Expr
  declared : declOf? (before ++ withExpression holder (fill steps (.name decl.name)) :: after)
    decl.name = some decl
  declExpression : decl.expression = some expression
  untyped : decl.type = none
  noIota : usesIota expression = false
  other : holder.name ≠ decl.name

namespace Mention

/-- The part of the holder's expression that `i` steps lead to, with `x` in the place of the
mention. -/
def part (M : Mention) (i : Nat) (x : Expr) : Expr := fill (M.steps.take i) x

/-- The package with `x` in the place of the mention. -/
def package (M : Mention) (x : Expr) : List ConstantDecl :=
  M.before ++ withExpression M.holder (fill M.steps x) :: M.after

/-- The mention itself. -/
def named (M : Mention) : Expr := .name M.decl.name

/-- What is written out in its place. -/
def writtenOut (M : Mention) : Expr := .paren M.expression

/-- Whether a fraction is lost: the constant is a float literal under signs, and the mention stands
under signs in a division of integers that does not come out even. -/
def LosesFraction (M : Mention) (types : Types) : Prop :=
  isSignedFloat M.expression = true ∧
    Loses types (final types (M.package M.named)) M.holder.iota M.named M.steps

/-- Another constant has the same declaration in both packages. -/
theorem declOf?_package (M : Mention) (x : Expr) :
    declOf? (M.package x) M.decl.name = some M.decl := by
  rcases declOf?_replace M.before M.after M.holder (fill M.steps x)
    (fill M.steps (.name M.decl.name)) M.decl.name with heq | ⟨hs, -, -⟩
  · exact heq.trans M.declared
  · exact absurd hs.symm M.other

theorem alike (M : Mention) (types : Types) (x : Expr) (iota : Nat) :
    Alike (denote types (final types (M.package x)) iota M.named)
      (denote types (final types (M.package x)) iota M.writtenOut) :=
  alike_name (M.declOf?_package x) M.declExpression M.untyped M.noIota

/-- In one package all parts are worth the same with the name and with what it stands for, where
no fraction is lost. -/
theorem collapse_part (M : Mention) {types : Types} {x : Expr}
    (h : ¬ (isSignedFloat M.expression = true ∧
      Loses types (final types (M.package x)) M.holder.iota M.named M.steps)) (i : Nat) :
    worth types (M.package x) M.holder.iota (M.part i M.named) =
      worth types (M.package x) M.holder.iota (M.part i M.writtenOut) :=
  collapse_fill (M.declOf?_package x) M.declExpression M.untyped M.noIota
    fun ⟨hs, hl⟩ => not_loses_take (fun hl => h ⟨hs, hl⟩) i hl

theorem collapse_whole (M : Mention) {types : Types} {x : Expr}
    (h : ¬ (isSignedFloat M.expression = true ∧
      Loses types (final types (M.package x)) M.holder.iota M.named M.steps)) :
    worth types (M.package x) M.holder.iota (fill M.steps M.named) =
      worth types (M.package x) M.holder.iota (fill M.steps M.writtenOut) := by
  have hwhole := M.collapse_part h M.steps.length
  rwa [part, part, List.take_length] at hwhole

/-- **Writing a name out** changes what no name stands for, where no fraction is lost. -/
theorem final_writtenOut (M : Mention) {types : Types} (h : ¬ M.LosesFraction types) (s : String) :
    final types (M.package M.named) s = final types (M.package M.writtenOut) s := by
  -- what the names stand for goes on to do for the package with the name written out
  have hback : ∀ s, Extends (final types (M.package M.writtenOut) s)
      (final types (M.package M.named) s) := by
    refine final_extends fun s => ?_
    rw [package, ← declared_replace (M.collapse_whole h) s, ← package, declared_final]
    exact .refl _
  -- so a fraction lost there would be lost here as well
  have h' : ¬ (isSignedFloat M.expression = true ∧ Loses types
      (final types (M.package M.writtenOut)) M.holder.iota M.named M.steps) :=
    fun hl => h ⟨hl.1, loses_mono hback hl.2⟩
  refine Extends.antisymm (final_extends (fun s => ?_) s) (hback s)
  rw [package, declared_replace (M.collapse_whole h') s, ← package, declared_final]
  exact .refl _

/-- No fraction is lost where all parts that hold the mention keep their values. -/
theorem not_loses_of_worth (M : Mention) {types : Types}
    (h : ∀ i, worth types (M.package M.named) M.holder.iota (M.part i M.named) =
      worth types (M.package M.writtenOut) M.holder.iota (M.part i M.writtenOut)) :
    ¬ M.LosesFraction types := by
  rintro ⟨hs, hl⟩
  have hwhole := h M.steps.length
  rw [part, part, List.take_length] at hwhole
  -- the whole expression keeps its value, so the names stand for the same in both packages
  have hfinal : final types (M.package M.named) = final types (M.package M.writtenOut) :=
    funext fun s =>
      (final_extends_of_worth hwhole s).antisymm (final_extends_of_worth hwhole.symm s)
  simp only [worth, ← hfinal] at h
  rcases M.alike types M.named M.holder.iota with heq | ⟨n, t, hx, hy⟩
  · refine not_loses_of_not_whole (fun n t hw => ?_) hl
    rw [heq] at hw
    rcases denote_signedFloat (e := M.writtenOut) hs with ⟨q, hq⟩ | ⟨cause, hc⟩
    · rw [hq] at hw
      cases hw
    · rw [hc] at hw
      cases hw
  · exact not_loses_of_parts hx hy h hl

/-- **A name and the expression that it stands for.**  Written out in parentheses where another
constant mentions it, a constant without a type leaves all parts that hold the mention their values
if and only if no fraction is lost, and then the table has the same entries. -/
theorem writtenOut_iff (M : Mention) (types : Types) :
    ((∀ i, worth types (M.package M.named) M.holder.iota (M.part i M.named) =
        worth types (M.package M.writtenOut) M.holder.iota (M.part i M.writtenOut)) ↔
      ¬ M.LosesFraction types) ∧
    (¬ M.LosesFraction types →
      records types (M.package M.named) = records types (M.package M.writtenOut)) := by
  refine ⟨⟨M.not_loses_of_worth, fun h i => ?_⟩,
    fun h => records_eq_of_final (M.final_writtenOut h)⟩
  have hfinal : final types (M.package M.named) = final types (M.package M.writtenOut) :=
    funext (M.final_writtenOut h)
  rw [M.collapse_part h i, worth, worth, hfinal]

end Mention

/-- With `N = 1.0`, a quarter of `N` is cut off to zero, and a quarter of `(1.0)` is not. -/
theorem quarter_of_name_loses_fraction : ∃ M : Mention,
    ((searchFor {} (M.package M.named) M.holder.name).run {}).1 = .ok ⟨.whole 0, none⟩ ∧
      ((searchFor {} (M.package M.writtenOut) M.holder.name).run {}).1 =
        .ok ⟨.ratio (1 / 4), none⟩ := by
  let one : ConstantDecl := ⟨"N", some (.float "1.0"), none, 0, "a.go", 0, none⟩
  let quarter : ConstantDecl := ⟨"M", none, none, 0, "a.go", 1, none⟩
  refine ⟨⟨[one], quarter, [], [.left .div (.int "4")], one, .float "1.0", rfl, rfl, rfl, rfl,
    by decide⟩, ?_, ?_⟩
  · decide +kernel
  · decide +kernel

end EnumHelpers.Package
