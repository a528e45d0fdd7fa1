import EnumHelpers.Proofs.Package.Search

/-!
# Proofs — evaluation that keeps nothing

What a name comes to by recursion alone: no value is found beforehand and none is kept, and every
name that is met is looked for anew (`direct`).  All that is known on the way down are the names
that were passed; one that is met again is a cycle.  Every name that is passed leaves one
declaration less ahead, so that the recursion ends.

* `direct_answers`: the recursion ends with what the name stands for, or with a cycle when it
  stands for nothing.
-/

namespace EnumHelpers.Package

/-! ### Expressions -/

/-- What an expression comes to when `names` says what names come to. -/
def evaluated (types : Types) (names : String → Except Constant.Failure Typed) (iota : Nat)
    (e : Expr) : Except Constant.Failure Typed :=
  ((evaluate types (fun s => .of (names s)) iota e).run {}).1

variable {α β : Type}

/-- From any progress, a search ends with an outcome and leaves the progress as it is. -/
def Leaves (x : Search α) (o : Except Constant.Failure α) : Prop := ∀ p, x.run p = (o, p)

theorem leaves_of (o : Except Constant.Failure α) : Leaves (.of o) o := fun _ => rfl

theorem leaves_pure (a : α) : Leaves (pure a) (.ok a) := fun _ => rfl

theorem Leaves.bind {x : Search α} {g : α → Search β} {o : Except Constant.Failure α}
    {o' : α → Except Constant.Failure β} (hx : Leaves x o) (hg : ∀ a, Leaves (g a) (o' a)) :
    Leaves (x >>= g) (o >>= o') := by
  intro p
  cases o with
  | error cause => exact run_bind_error (hx p)
  | ok a => exact (run_bind_ok (hx p)).trans (hg a p)

theorem Leaves.unique {x : Search α} {o o' : Except Constant.Failure α} (h : Leaves x o)
    (h' : Leaves x o') : o = o' :=
  (Prod.mk.inj ((h {}).symm.trans (h' {}))).1

variable {types : Types} {names : String → Except Constant.Failure Typed} {iota : Nat}

/-- An evaluation in which every name is told leaves the progress as it is. -/
theorem leaves_evaluate (e : Expr) :
    Leaves (evaluate types (fun s => .of (names s)) iota e) (evaluated types names iota e) := by
  suffices h : ∃ o, Leaves (evaluate types (fun s => .of (names s)) iota e) o by
    obtain ⟨o, ho⟩ := h
    intro p
    rw [evaluated, ho p, ho {}]
  induction e with
  | int text | float text | rune text =>
      exact ⟨_, (leaves_of _).bind fun _ => leaves_pure _⟩
  | string text | truth b | iota => exact ⟨_, leaves_pure _⟩
  | unsupported | notText => exact ⟨.error _, fun _ => rfl⟩
  | name s => exact ⟨_, leaves_of _⟩
  | paren e ih => exact ih
  | unary op e ih =>
      obtain ⟨o, ho⟩ := ih
      exact ⟨_, ho.bind fun _ => (leaves_of _).bind fun _ => leaves_pure _⟩
  | binary op l r ihl ihr =>
      obtain ⟨o, ho⟩ := ihl
      obtain ⟨o', ho'⟩ := ihr
      exact ⟨_, ho.bind fun _ => ho'.bind fun _ => (leaves_of _).bind fun _ => leaves_pure _⟩
  | conversion type e ih =>
      obtain ⟨o, ho⟩ := ih
      rw [evaluate]
      split
      · exact ⟨_, ho.bind fun _ => leaves_pure _⟩
      · exact ⟨.error _, fun _ => rfl⟩

theorem evaluated_int (text : String) : evaluated types names iota (.int text) = (do
      let n ← Constant.integerLiteral text
      .ok ⟨.whole n, none⟩) :=
  (leaves_evaluate _).unique <| (leaves_of _).bind fun _ => leaves_pure _

theorem evaluated_float (text : String) : evaluated types names iota (.float text) = (do
      let q ← Constant.floatLiteral text
      .ok ⟨.ratio q, none⟩) :=
  (leaves_evaluate _).unique <| (leaves_of _).bind fun _ => leaves_pure _

theorem evaluated_rune (text : String) : evaluated types names iota (.rune text) = (do
      let n ← Constant.runeLiteral text
      .ok ⟨.whole n, none⟩) :=
  (leaves_evaluate _).unique <| (leaves_of _).bind fun _ => leaves_pure _

theorem evaluated_unary (op : Constant.UnaryOp) (e : Expr) :
    evaluated types names iota (.unary op e) = (do
      let operand ← evaluated types names iota e
      let value ← Constant.applyUnary op operand.value (types.unsignedBits operand.type)
      .ok ⟨value, operand.type⟩) :=
  (leaves_evaluate _).unique <|
    (leaves_evaluate e).bind fun _ => (leaves_of _).bind fun _ => leaves_pure _

theorem evaluated_binary (op : Constant.BinaryOp) (l r : Expr) :
    evaluated types names iota (.binary op l r) = (do
      let left ← evaluated types names iota l
      let right ← evaluated types names iota r
      let value ← Constant.applyBinary op left.value right.value
      .ok ⟨value, resultType op left.type right.type⟩) :=
  (leaves_evaluate _).unique <| (leaves_evaluate l).bind fun _ => (leaves_evaluate r).bind fun _ =>
    (leaves_of _).bind fun _ => leaves_pure _

theorem evaluated_conversion (type : String) (e : Expr) :
    evaluated types names iota (.conversion type e) =
      if types.isType type then (do
        let operand ← evaluated types names iota e
        .ok ⟨operand.value.normalize, some type⟩)
      else .error (.refused .outsideSubset) := by
  refine (leaves_evaluate _).unique ?_
  rw [evaluate]
  split
  · exact (leaves_evaluate e).bind fun _ => leaves_pure _
  · exact fun _ => rfl

/-! ### Names -/

/-- The declared names that were not passed yet. -/
def ahead (decls : List ConstantDecl) (path : List String) : List String :=
  (decls.map ConstantDecl.name).filter fun name => name ∉ path

variable {decls : List ConstantDecl} {path : List String} {name : String}

/-- A declared name that is passed is not ahead any more. -/
theorem length_ahead_lt {decl : ConstantDecl} (hd : declOf? decls name = some decl)
    (hp : name ∉ path) : (ahead decls (name :: path)).length < (ahead decls path).length := by
  obtain ⟨rfl, hmem⟩ := name_of_declOf? hd
  have hless : ahead decls (decl.name :: path) =
      (ahead decls path).filter fun name => name ≠ decl.name := by
    rw [ahead, ahead, List.filter_filter]
    refine List.filter_congr fun name _ => ?_
    simp [not_or]
  have hahead : decl.name ∈ ahead decls path :=
    List.mem_filter.mpr ⟨List.mem_map_of_mem hmem, by simpa using hp⟩
  rw [hless, List.length_filter_lt_length_iff_exists]
  exact ⟨decl.name, hahead, by simp⟩

/-- What a name comes to when nothing is kept, below the names that were passed. -/
def direct (types : Types) (decls : List ConstantDecl) (path : List String) (name : String) :
    Except Constant.Failure Typed :=
  match _ : declOf? decls name with
  | none => .error (.refused (.notAConstant name))
  | some decl =>
    match decl.expression with
    | none => .error (.refused (.noExpression name))
    | some e =>
      if _ : name ∈ path then .error (.cycle name)
      else (evaluated types (fun s => direct types decls (name :: path) s) decl.iota e).map
        decl.settled
termination_by (ahead decls path).length
decreasing_by exact length_ahead_lt ‹_› ‹_›

theorem direct_of_undeclared (hd : declOf? decls name = none) :
    direct types decls path name = .error (.refused (.notAConstant name)) := by
  rw [direct]
  split
  · rfl
  · rename_i h
    rw [hd] at h
    cases h

variable {decl : ConstantDecl} {e : Expr}

/-- What a declared name comes to. -/
theorem direct_of_declared (hd : declOf? decls name = some decl) :
    direct types decls path name =
      match decl.expression with
      | none => .error (.refused (.noExpression name))
      | some e =>
        if name ∈ path then .error (.cycle name)
        else (evaluated types (direct types decls (name :: path)) decl.iota e).map
          decl.settled := by
  rw [direct]
  split
  · rename_i h
    rw [hd] at h
    cases h
  · rename_i h
    cases hd.symm.trans h
    rfl

theorem direct_of_noExpression (hd : declOf? decls name = some decl)
    (he : decl.expression = none) :
    direct types decls path name = .error (.refused (.noExpression name)) := by
  simp only [direct_of_declared hd, he]

theorem direct_of_mem (hd : declOf? decls name = some decl) (he : decl.expression = some e)
    (hp : name ∈ path) : direct types decls path name = .error (.cycle name) := by
  simp only [direct_of_declared hd, he, if_pos hp]

theorem direct_of_notMem (hd : declOf? decls name = some decl) (he : decl.expression = some e)
    (hp : name ∉ path) : direct types decls path name =
      (evaluated types (direct types decls (name :: path)) decl.iota e).map decl.settled := by
  simp only [direct_of_declared hd, he, if_neg hp]

/-! ### What names stand for -/

theorem Answers.map {o : Except Constant.Failure α} {f : Nat → Outcome α} (g : α → β)
    (h : Answers o f) : Answers (o.map g) fun n => (f n).map (·.map g) := by
  rcases h with ⟨n, hn⟩ | ⟨⟨name, rfl⟩, hnone⟩
  · exact .inl ⟨n, by simp only [hn, Option.map_some]⟩
  · exact .inr ⟨⟨name, rfl⟩, fun n => by simp only [hnone n, Option.map_none]⟩

/-- An expression comes to what it stands for when the names that the evaluation meets do. -/
theorem evaluated_answers {f : Nat → String → Outcome Typed} {goal : Nat → Prop}
    (hf : ∀ s, Mono fun n => f n s)
    (hn : ∀ s, (∀ n, f n s = none → goal n) → Answers (names s) fun n => f n s)
    (hgoal : ∀ n, denote types (f n) iota e = none → goal n) :
    Answers (evaluated types names iota e) fun n => denote types (f n) iota e := by
  have hlookup : ∀ s, (∀ n, f n s = none → goal n) →
      Tells (fun _ => True) (.of (names s)) fun n => f n s :=
    fun s hs p _ => ⟨_, p, leaves_of _ p, trivial, hn s hs⟩
  obtain ⟨o, p, hrun, -, hanswer⟩ := evaluate_tells hf hlookup e hgoal {} trivial
  rw [leaves_evaluate e {}] at hrun
  cases hrun
  exact hanswer

/-- **Recursion alone comes to what a name stands for.**  Each of the names that were passed needs
the name. -/
theorem direct_answers (path : List String) (name : String)
    (hneeds : ∀ c ∈ path, ∃ k, ∀ n, meaning types decls n name = none →
      meaning types decls (n + k + 1) c = none) :
    Answers (direct types decls path name) fun n => meaning types decls n name := by
  cases hd : declOf? decls name with
  | none =>
      rw [direct_of_undeclared hd]
      exact .inl ⟨1, by simp only [meaning, declared, hd]⟩
  | some decl =>
      cases he : decl.expression with
      | none =>
          rw [direct_of_noExpression hd he]
          exact .inl ⟨1, by simp only [meaning, declared, hd, he]⟩
      | some e =>
          by_cases hp : name ∈ path
          · -- the name is met again, so it needs itself
            rw [direct_of_mem hd he hp]
            obtain ⟨k, hk⟩ := hneeds name hp
            exact .inr ⟨⟨name, rfl⟩, diverges_of_needs hk⟩
          · rw [direct_of_notMem hd he hp]
            have hsucc : ∀ n, meaning types decls (n + 1) name =
                (denote types (meaning types decls n) decl.iota e).map (·.map decl.settled) :=
              meaning_succ hd he
            have hnames : ∀ s, (∀ n, meaning types decls n s = none →
                meaning types decls (n + 1) name = none) →
                Answers (direct types decls (name :: path) s) fun n => meaning types decls n s :=
              fun s hs => direct_answers (name :: path) s (needs_cons hneeds hs)
            have hvalue : Answers (evaluated types (direct types decls (name :: path)) decl.iota e)
                fun n => denote types (meaning types decls n) decl.iota e :=
              evaluated_answers mono_meaning hnames fun n hn => by rw [hsucc, hn]; rfl
            have hsettled := hvalue.map decl.settled
            simp only [← hsucc] at hsettled
            exact hsettled.shift (mono_meaning name)
termination_by (ahead decls path).length
decreasing_by exact length_ahead_lt ‹_› ‹_›

/-- What is recorded for a constant is what recursion alone comes to. -/
theorem recorded_direct (decl : ConstantDecl) :
    recorded decl (direct types decls [] decl.name) =
      recorded decl (outcome types decls decl.name) :=
  recorded_of_answers (direct_answers [] decl.name fun _ h => (List.not_mem_nil h).elim)

end EnumHelpers.Package
