import EnumHelpers.Package.Evaluation
import EnumHelpers.Proofs.Outcome

/-!
# Proofs — what expressions and names stand for

The values of expressions and constants without a search: no progress, no values kept.  What an
expression stands for is given by what the names in it stand for (`denote`), and what a name stands
for by its declaration, down to a depth (`meaning`).  There is no outcome when the depth does not
do, and more depth never changes an outcome, so that a name stands for what it does at any depth
that does (`Settles`), or for nothing: its declaration leads back to itself.

* `denote_mono`, `meaning_mono`: an outcome stays with more depth.
* `normal_of_denote`: the value of an expression is collapsed, but for a float literal in
  parentheses and under signs.
-/

namespace EnumHelpers.Package

/-- What comes of an evaluation; none when there is no outcome yet. -/
abbrev Outcome (α : Type) := Option (Except Constant.Failure α)

/-- An evaluation with another one after it. -/
def Outcome.bind {α β : Type} (x : Outcome α) (f : α → Outcome β) : Outcome β :=
  match x with
  | some (.ok a) => f a
  | some (.error cause) => some (.error cause)
  | none => none

/-- What an expression stands for, given what names stand for. -/
def denote (types : Types) (names : String → Outcome Typed) (iota : Nat) : Expr → Outcome Typed
  | .int text => some ((Constant.integerLiteral text).map fun n => ⟨.whole n, none⟩)
  | .float text => some ((Constant.floatLiteral text).map fun q => ⟨.ratio q, none⟩)
  | .rune text => some ((Constant.runeLiteral text).map fun n => ⟨.whole n, none⟩)
  | .string text => some (.ok ⟨.text text, none⟩)
  | .truth b => some (.ok ⟨.truth b, none⟩)
  | .iota => some (.ok ⟨.whole iota, none⟩)
  | .name s => names s
  | .paren e => denote types names iota e
  | .unary op e => (denote types names iota e).bind fun operand =>
      some ((Constant.applyUnary op operand.value (types.unsignedBits operand.type)).map fun value =>
        ⟨value, operand.type⟩)
  | .binary op l r => (denote types names iota l).bind fun left =>
      (denote types names iota r).bind fun right =>
        some ((Constant.applyBinary op left.value right.value).map fun value =>
          ⟨value, resultType op left.type right.type⟩)
  | .conversion type e =>
    if types.isType type then (denote types names iota e).bind fun operand =>
      some (.ok ⟨operand.value.normalize, some type⟩)
    else some (.error (.refused .outsideSubset))
  | .unsupported => some (.error (.refused .outsideSubset))
  | .notText => some (.error .notText)

/-- What a constant has for a value when its expression stands for `typed`. -/
def ConstantDecl.settled (decl : ConstantDecl) (typed : Typed) : Typed :=
  ⟨typed.value.normalize, decl.type.or typed.type⟩

/-- What a name stands for, given what the names in its declaration stand for. -/
def declared (types : Types) (decls : List ConstantDecl) (names : String → Outcome Typed)
    (name : String) : Outcome Typed :=
  match declOf? decls name with
  | none => some (.error (.refused (.notAConstant name)))
  | some decl =>
    match decl.expression with
    | none => some (.error (.refused (.noExpression name)))
    | some e => (denote types names decl.iota e).map (·.map decl.settled)

/-- What a name stands for, looked for down to a depth. -/
def meaning (types : Types) (decls : List ConstantDecl) : Nat → String → Outcome Typed
  | 0, _ => none
  | depth + 1, name => declared types decls (meaning types decls depth) name

/-- What a name stands for. -/
def Settles (types : Types) (decls : List ConstantDecl) (name : String)
    (o : Except Constant.Failure Typed) : Prop :=
  ∃ depth, meaning types decls depth name = some o

/-! ### More depth -/

/-- Whatever has an outcome has the same one with more depth. -/
def Extends {α : Type} (x y : Outcome α) : Prop := ∀ o, x = some o → y = some o

variable {α β : Type} {types : Types} {decls : List ConstantDecl} {iota : Nat}

theorem Extends.refl (x : Outcome α) : Extends x x := fun _ h => h

theorem Extends.trans {x y z : Outcome α} (h : Extends x y) (h' : Extends y z) : Extends x z :=
  fun o ho => h' o (h o ho)

theorem Extends.antisymm {x y : Outcome α} (h : Extends x y) (h' : Extends y x) : x = y := by
  cases x with
  | some o => exact (h o rfl).symm
  | none =>
      cases y with
      | none => rfl
      | some o => exact h' o rfl

theorem Extends.none {y : Outcome α} : Extends none y := fun _ h => nomatch h

theorem Extends.bind {x y : Outcome α} {f g : α → Outcome β} (h : Extends x y)
    (hf : ∀ a, Extends (f a) (g a)) : Extends (x.bind f) (y.bind g) := by
  cases x with
  | none => exact .none
  | some o =>
      rw [h o rfl]
      cases o with
      | error cause => exact .refl _
      | ok a => exact hf a

theorem Extends.map {x y : Outcome α} {f : Except Constant.Failure α → Except Constant.Failure β}
    (h : Extends x y) : Extends (Option.map f x) (Option.map f y) := by
  intro o ho
  obtain ⟨o', hx, rfl⟩ := Option.map_eq_some_iff.mp ho
  rw [h o' hx]
  rfl

/-- An expression stands for the same when the names in it do. -/
theorem denote_extends {names names' : String → Outcome Typed}
    (h : ∀ s, Extends (names s) (names' s)) (e : Expr) :
    Extends (denote types names iota e) (denote types names' iota e) := by
  induction e with
  | name s => exact h s
  | paren e ih => exact ih
  | unary op e ih => exact ih.bind fun _ => .refl _
  | binary op l r ihl ihr => exact ihl.bind fun _ => ihr.bind fun _ => .refl _
  | conversion type e ih =>
      simp only [denote]
      split
      · exact ih.bind fun _ => .refl _
      · exact .refl _
  | _ => exact .refl _

theorem declared_extends {names names' : String → Outcome Typed}
    (h : ∀ s, Extends (names s) (names' s)) (name : String) :
    Extends (declared types decls names name) (declared types decls names' name) := by
  rw [declared, declared]
  split
  · exact .refl _
  · split
    · exact .refl _
    · exact (denote_extends h _).map

theorem meaning_step (depth : Nat) (name : String) :
    Extends (meaning types decls depth name) (meaning types decls (depth + 1) name) := by
  induction depth generalizing name with
  | zero => exact .none
  | succ depth ih => exact declared_extends ih name

/-- **More depth changes no outcome.** -/
theorem meaning_mono {m n : Nat} (h : m ≤ n) (name : String) :
    Extends (meaning types decls m name) (meaning types decls n name) := by
  induction h with
  | refl => exact .refl _
  | step _ ih => exact ih.trans (meaning_step _ name)

theorem denote_mono {m n : Nat} (h : m ≤ n) (e : Expr) :
    Extends (denote types (meaning types decls m) iota e)
      (denote types (meaning types decls n) iota e) :=
  denote_extends (meaning_mono h) e

/-- A name stands for one thing only. -/
theorem Settles.unique {name : String} {o o' : Except Constant.Failure Typed}
    (h : Settles types decls name o) (h' : Settles types decls name o') : o = o' := by
  obtain ⟨m, hm⟩ := h
  obtain ⟨n, hn⟩ := h'
  have hm := meaning_mono (Nat.le_max_left m n) name o hm
  have hn := meaning_mono (Nat.le_max_right m n) name o' hn
  exact Option.some.inj (hm.symm.trans hn)

/-! ### Depth enough -/

open Classical in
/-- What a name stands for at any depth that does; none when there is no such depth. -/
noncomputable def final (types : Types) (decls : List ConstantDecl) (name : String) :
    Outcome Typed :=
  if h : ∃ o, Settles types decls name o then some h.choose else none

theorem final_eq_some {name : String} {o : Except Constant.Failure Typed} :
    final types decls name = some o ↔ Settles types decls name o := by
  constructor
  · intro h
    rw [final] at h
    split at h
    · rename_i hex
      cases h
      exact hex.choose_spec
    · cases h
  · intro h
    have hex : ∃ o, Settles types decls name o := ⟨o, h⟩
    rw [final, dif_pos hex, hex.choose_spec.unique h]

theorem final_eq_none {name : String} :
    final types decls name = none ↔ ∀ n, meaning types decls n name = none := by
  constructor
  · intro h n
    cases hn : meaning types decls n name with
    | none => rfl
    | some o =>
        rw [final_eq_some.mpr ⟨n, hn⟩] at h
        cases h
  · intro h
    rw [final, dif_neg]
    rintro ⟨o, n, hn⟩
    rw [h n] at hn
    cases hn

theorem meaning_extends_final (depth : Nat) (name : String) :
    Extends (meaning types decls depth name) (final types decls name) :=
  fun _ h => final_eq_some.mpr ⟨depth, h⟩

/-- An evaluation with another one after it has its outcome at the depth at which both do. -/
theorem Outcome.bind_reached {x : Outcome α} {f : α → Outcome β} {x' : Nat → Outcome α}
    {f' : Nat → α → Outcome β} (hx : ∀ m n, m ≤ n → Extends (x' m) (x' n))
    (hf : ∀ m n, m ≤ n → ∀ a, Extends (f' m a) (f' n a))
    (hreach : ∀ o, x = some o → ∃ n, x' n = some o)
    (hreach' : ∀ a o, f a = some o → ∃ n, f' n a = some o) {o : Except Constant.Failure β}
    (h : x.bind f = some o) : ∃ n, (x' n).bind (f' n) = some o := by
  cases hxo : x with
  | none => rw [hxo] at h; cases h
  | some o' =>
      obtain ⟨m, hm⟩ := hreach o' hxo
      rw [hxo] at h
      cases o' with
      | error cause => exact ⟨m, by rw [hm]; exact h⟩
      | ok a =>
          obtain ⟨n, hn⟩ := hreach' a o h
          -- at the greater of the two depths both have their outcomes
          refine ⟨max m n, ?_⟩
          rw [hx m _ (Nat.le_max_left m n) _ hm]
          exact hf n _ (Nat.le_max_right m n) a o hn

/-- What an expression stands for at any depth, it does at some. -/
theorem denote_final {e : Expr} {o : Except Constant.Failure Typed}
    (h : denote types (final types decls) iota e = some o) :
    ∃ n, denote types (meaning types decls n) iota e = some o := by
  induction e generalizing o with
  | name s => exact final_eq_some.mp h
  | paren e ih => exact ih h
  | unary op e ih =>
      exact Outcome.bind_reached (fun _ _ hle => denote_mono hle e) (fun _ _ _ _ => .refl _)
        (fun _ => ih) (fun _ _ h => ⟨0, h⟩) h
  | binary op l r ihl ihr =>
      refine Outcome.bind_reached (fun _ _ hle => denote_mono hle l)
        (fun _ _ hle _ => (denote_mono hle r).bind fun _ => .refl _) (fun _ => ihl) ?_ h
      intro left o h
      exact Outcome.bind_reached (fun _ _ hle => denote_mono hle r) (fun _ _ _ _ => .refl _)
        (fun _ => ihr) (fun _ _ h => ⟨0, h⟩) h
  | conversion type e ih =>
      rw [denote] at h
      simp only [denote]
      split
      · rename_i ht
        rw [if_pos ht] at h
        exact Outcome.bind_reached (fun _ _ hle => denote_mono hle e) (fun _ _ _ _ => .refl _)
          (fun _ => ih) (fun _ _ h => ⟨0, h⟩) h
      · rename_i ht
        rw [if_neg ht] at h
        exact ⟨0, h⟩
  | _ => exact ⟨0, h⟩

/-- What a name stands for at any depth is what its declaration makes it. -/
theorem declared_final (name : String) :
    declared types decls (final types decls) name = final types decls name := by
  -- one step more reaches what the declaration makes of what is reached already
  have reached : Extends (declared types decls (final types decls) name)
      (final types decls name) := by
    intro o h
    rw [declared] at h
    split at h
    · rename_i hd
      exact final_eq_some.mpr ⟨1, by rw [← h, meaning, declared, hd]⟩
    · rename_i decl hd
      split at h
      · rename_i he
        exact final_eq_some.mpr ⟨1, by rw [← h, meaning, declared, hd]; simp only [he]⟩
      · rename_i e he
        obtain ⟨o', ho', rfl⟩ := Option.map_eq_some_iff.mp h
        obtain ⟨n, hn⟩ := denote_final ho'
        refine final_eq_some.mpr ⟨n + 1, ?_⟩
        rw [meaning, declared, hd]
        simp only [he, hn, Option.map_some]
  cases hf : final types decls name with
  | none =>
      cases hd : declared types decls (final types decls) name with
      | none => rfl
      | some o => rw [← hf, reached o hd]
  | some o =>
      obtain ⟨n, hn⟩ := final_eq_some.mp hf
      exact declared_extends (meaning_extends_final n) name o (meaning_step n name o hn)

/-- Nothing less stands still. -/
theorem final_extends {names : String → Outcome Typed}
    (h : ∀ s, Extends (declared types decls names s) (names s)) (name : String) :
    Extends (final types decls name) (names name) := by
  have hdepth : ∀ n s, Extends (meaning types decls n s) (names s) := by
    intro n
    induction n with
    | zero => exact fun s => .none
    | succ n ih => exact fun s => (declared_extends ih s).trans (h s)
  intro o ho
  obtain ⟨n, hn⟩ := final_eq_some.mp ho
  exact hdepth n name o hn

/-! ### Values in collapsed form -/

/-- Whether an expression is a float literal in parentheses and under signs: the one form whose
value may be an integral rational. -/
def isSignedFloat : Expr → Bool
  | .float _ => true
  | .paren e => isSignedFloat e
  | .unary .plus e | .unary .minus e => isSignedFloat e
  | _ => false

/-- Whether a value is in collapsed form. -/
def Normal (v : Constant) : Prop := v.normalize = v

theorem normal_normalize (v : Constant) : Normal v.normalize := Constant.normalize_normalize v

theorem normal_whole (n : Int) : Normal (.whole n) := rfl

theorem normal_bitwise {op : Constant.BinaryOp} {a b : Int} {v : Constant}
    (h : Constant.bitwise op a b = .ok v) : Normal v := by
  unfold Constant.bitwise at h
  split at h
  case h_5 =>
      split at h
      · cases h
      · cases h
        exact normal_whole _
  all_goals
    cases h
    exact normal_whole _

theorem normal_shift {op : Constant.BinaryOp} {n count : Int} {v : Constant}
    (h : Constant.shift op n count = .ok v) : Normal v := by
  rw [Constant.shift] at h
  split at h
  · cases h
  · split at h
    · cases hu : Constant.shiftUp n count.toNat with
      | error cause => rw [hu] at h; cases h
      | ok m => rw [hu] at h; cases h; exact normal_whole _
    · cases h
      exact normal_whole _

theorem normal_arithmetic {op : Constant.BinaryOp} {l r v : Constant}
    (h : Constant.arithmetic op l r = .ok v) : Normal v := by
  unfold Constant.arithmetic at h
  split at h
  · split at h
    case h_4 =>
        unfold Constant.divide at h
        split at h
        · cases h
        · split at h
          · cases h
            exact normal_whole _
          · cases h
            exact normal_normalize _
    case h_5 => cases h
    all_goals
      cases h
      exact normal_normalize _
  · cases h

/-- The result of a binary operator is in collapsed form. -/
theorem normal_applyBinary {op : Constant.BinaryOp} {l r v : Constant}
    (h : Constant.applyBinary op l r = .ok v) : Normal v := by
  unfold Constant.applyBinary at h
  split at h
  case h_8 => exact normal_arithmetic h
  all_goals
    obtain ⟨a, -, h⟩ := bind_eq_ok.mp h
    obtain ⟨b, -, h⟩ := bind_eq_ok.mp h
    first
      | exact normal_shift h
      | exact normal_bitwise h

theorem normal_neg_ratio {q : Rat} (h : Normal (.ratio q)) : Normal (.ratio (-q)) := by
  rw [Normal, Constant.normalize] at h ⊢
  rw [Rat.neg_den]
  split
  · rename_i hq
    rw [if_pos hq] at h
    cases h
  · rfl

/-- The result of a unary operator is in collapsed form, that of a sign when its operand is. -/
theorem normal_applyUnary {op : Constant.UnaryOp} {v w : Constant} {bits : Option Nat}
    (h : Constant.applyUnary op v bits = .ok w) (hv : op = .plus ∨ op = .minus → Normal v) :
    Normal w := by
  unfold Constant.applyUnary at h
  split at h
  · cases h
    exact hv (.inl rfl)
  · cases h
    exact normal_whole _
  · cases h
    exact normal_neg_ratio (hv (.inr rfl))
  · cases h
  · split at h
    · cases h
      exact normal_whole _
    · cases h
  · cases h
    rfl
  · cases h

/-- An evaluation with another one after it ends well when both do. -/
theorem Outcome.bind_eq_ok {α β : Type} {x : Outcome α} {f : α → Outcome β} {b : β} :
    x.bind f = some (.ok b) ↔ ∃ a, x = some (.ok a) ∧ f a = some (.ok b) := by
  cases x with
  | none => exact ⟨fun h => (nomatch h), fun ⟨_, h, _⟩ => (nomatch h)⟩
  | some o =>
      cases o with
      | error cause =>
          refine ⟨fun h => ?_, fun ⟨_, h, _⟩ => ?_⟩
          · cases h
          · cases h
      | ok a =>
          refine ⟨fun h => ⟨a, rfl, h⟩, ?_⟩
          rintro ⟨a, ⟨⟩, h⟩
          exact h

variable {names : String → Outcome Typed}

/-- **Values are in collapsed form** but for a float literal in parentheses and under signs. -/
theorem normal_of_denote (hn : ∀ s t, names s = some (.ok t) → Normal t.value) {e : Expr}
    {t : Typed} (h : denote types names iota e = some (.ok t)) (he : isSignedFloat e = false) :
    Normal t.value := by
  induction e generalizing t with
  | float text => cases he
  | int text | rune text =>
      obtain ⟨n, -, rfl⟩ := map_eq_ok.mp (Option.some.inj h)
      exact normal_whole n
  | string text | truth b | iota => cases h; rfl
  | name s => exact hn s t h
  | paren e ih => exact ih h he
  | unary op e ih =>
      obtain ⟨operand, hd, h⟩ := Outcome.bind_eq_ok.mp h
      obtain ⟨v, hv, rfl⟩ := map_eq_ok.mp (Option.some.inj h)
      refine normal_applyUnary hv ?_
      rintro (rfl | rfl)
      · exact ih hd he
      · exact ih hd he
  | binary op l r ihl ihr =>
      obtain ⟨left, -, h⟩ := Outcome.bind_eq_ok.mp h
      obtain ⟨right, -, h⟩ := Outcome.bind_eq_ok.mp h
      obtain ⟨v, hv, rfl⟩ := map_eq_ok.mp (Option.some.inj h)
      exact normal_applyBinary hv
  | conversion type e ih =>
      simp only [denote] at h
      split at h
      · obtain ⟨operand, -, h⟩ := Outcome.bind_eq_ok.mp h
        cases h
        exact normal_normalize _
      · cases h
  | unsupported | notText => cases h

/-- What a name stands for is in collapsed form. -/
theorem normal_of_meaning {depth : Nat} {name : String} {t : Typed}
    (h : meaning types decls depth name = some (.ok t)) : Normal t.value := by
  cases depth with
  | zero => cases h
  | succ depth =>
      rw [meaning, declared] at h
      split at h
      · cases h
      · split at h
        · cases h
        · obtain ⟨o, -, h⟩ := Option.map_eq_some_iff.mp h
          obtain ⟨t, -, rfl⟩ := map_eq_ok.mp h
          exact normal_normalize _

end EnumHelpers.Package
