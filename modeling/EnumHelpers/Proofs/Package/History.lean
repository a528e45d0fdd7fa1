import EnumHelpers.Proofs.Package.Stops

/-!
# Proofs — searches one after another

The searches for the constants of a package share the values that were found.  In whatever order
names are looked for, and whatever was found for the names before, each search ends as recursion
alone does, and nothing is in progress when it has ended.

The depth of a search within searches is bounded by the number of declarations: with more fuel than
that, a search runs as it does with any more (`search_agree`).

* `recorded_of_history`: what is recorded for a constant is what recursion alone comes to, and a
  constant has no value when that is stopped by a refusal or a cycle.
-/

namespace EnumHelpers.Package

variable {α β : Type} {types : Types} {decls : List ConstantDecl} {stack : List String}

/-! ### Fuel -/

/-- Two searches run alike while the constants in `stack` are in progress, and leave them so. -/
def Agree (stack : List String) (x y : Search α) : Prop :=
  ∀ p : Progress, p.inProgress = stack →
    ∃ o p', x.run p = (o, p') ∧ y.run p = (o, p') ∧ p'.inProgress = stack

theorem Agree.of_run {x : Search α} {o : Except Constant.Failure α}
    (h : ∀ p, x.run p = (o, p)) : Agree stack x x :=
  fun p hp => ⟨o, p, h p, h p, hp⟩

theorem Agree.bind {x y : Search α} {f g : α → Search β} (h : Agree stack x y)
    (hfg : ∀ a, Agree stack (f a) (g a)) : Agree stack (x >>= f) (y >>= g) := by
  intro p hp
  obtain ⟨o, p', hx, hy, hp'⟩ := h p hp
  cases o with
  | error cause =>
      exact ⟨.error cause, p', run_bind_error hx, run_bind_error hy, hp'⟩
  | ok a =>
      obtain ⟨o, p'', hf, hg, hp''⟩ := hfg a p' hp'
      exact ⟨o, p'', (run_bind_ok hx).trans hf, (run_bind_ok hy).trans hg, hp''⟩

theorem evaluate_agree {lookup lookup' : String → Search Typed}
    (h : ∀ s, Agree stack (lookup s) (lookup' s)) (iota : Nat) (e : Expr) :
    Agree stack (evaluate types lookup iota e) (evaluate types lookup' iota e) := by
  have hof : ∀ {γ δ : Type} (o : Except Constant.Failure γ) (f : γ → δ),
      Agree stack (do let a ← Search.of o; pure (f a)) (do let a ← Search.of o; pure (f a)) :=
    fun o f => (Agree.of_run (leaves_of o)).bind fun a => .of_run (leaves_pure (f a))
  induction e with
  | int text | float text | rune text => exact hof _ _
  | string text | truth b | iota => exact .of_run (leaves_pure _)
  | unsupported | notText => exact .of_run fun _ => rfl
  | name s => exact h s
  | paren e ih => exact ih
  | unary op e ih => exact ih.bind fun _ => hof _ _
  | binary op l r ihl ihr => exact ihl.bind fun _ => ihr.bind fun _ => hof _ _
  | conversion type e ih =>
      simp only [evaluate]
      split
      · exact ih.bind fun _ => .of_run (leaves_pure _)
      · exact .of_run fun _ => rfl

theorem Agree.whileInProgress {name : String} {x y : Search Typed}
    (h : Agree (name :: stack) x y) :
    Agree stack (whileInProgress name x) (whileInProgress name y) := by
  intro p hp
  obtain ⟨o, p', hx, hy, hp'⟩ := h { p with inProgress := name :: p.inProgress } (by rw [hp])
  have hx : (x : StateT Progress Id _) { p with inProgress := name :: p.inProgress } =
      (o, p') := hx
  have hy : (y : StateT Progress Id _) { p with inProgress := name :: p.inProgress } =
      (o, p') := hy
  refine ⟨o, { p' with inProgress := p'.inProgress.erase name }, ?_, ?_, ?_⟩
  · simp only [Package.whileInProgress, ExceptT.run, ExceptT.mk, hx]
  · simp only [Package.whileInProgress, ExceptT.run, ExceptT.mk, hy]
  · simp only [hp', List.erase_cons_head]

/-- **Fuel enough.**  With more fuel than declared names ahead, a search does not depend on the
fuel. -/
theorem search_agree {fuel fuel' : Nat} {name : String} (h : (ahead decls stack).length < fuel)
    (h' : (ahead decls stack).length < fuel') :
    Agree stack (search types decls fuel name) (search types decls fuel' name) := by
  induction fuel generalizing fuel' stack name with
  | zero => exact absurd h (Nat.not_lt_zero _)
  | succ fuel ih =>
      obtain ⟨fuel', rfl⟩ := Nat.exists_eq_succ_of_ne_zero (Nat.ne_of_gt (Nat.zero_lt_of_lt h'))
      intro p hp
      have hget : (get : Search Progress).run p = (.ok p, p) := rfl
      rw [search, search, run_bind_ok hget, run_bind_ok hget]
      cases OrderedMap.get? name p.found with
      | some t => exact ⟨.ok t, p, rfl, rfl, hp⟩
      | none =>
          dsimp only
          cases hd : declOf? decls name with
          | none => exact ⟨_, p, rfl, rfl, hp⟩
          | some decl =>
              dsimp only
              cases decl.expression with
              | none => exact ⟨_, p, rfl, rfl, hp⟩
              | some e =>
                  dsimp only
                  split
                  · exact ⟨_, p, rfl, rfl, hp⟩
                  · rename_i hc
                    rw [hp, List.contains_iff_mem] at hc
                    -- the name is passed, so that less is ahead of the searches within
                    have hless := length_ahead_lt hd hc
                    have hnames : ∀ s, Agree (name :: stack) (search types decls fuel s)
                        (search types decls fuel' s) :=
                      fun s => ih (by omega) (by omega)
                    refine ((evaluate_agree hnames decl.iota e).whileInProgress.bind
                      fun typed => ?_) p hp
                    exact fun p hp => ⟨_, _, rfl, rfl, hp⟩

theorem length_ahead_nil (decls : List ConstantDecl) : (ahead decls []).length ≤ decls.length := by
  rw [← List.length_map ConstantDecl.name]
  exact List.length_filter_le _ _

/-- A search for a constant of a package does not depend on the fuel. -/
theorem run_search_eq {fuel : Nat} (h : decls.length < fuel) {p : Progress}
    (hp : p.inProgress = []) (name : String) :
    (search types decls fuel name).run p = (searchFor types decls name).run p := by
  have hahead := length_ahead_nil decls
  have hagree : Agree [] (search types decls fuel name) (searchFor types decls name) :=
    search_agree (Nat.lt_of_le_of_lt hahead h) (Nat.lt_succ_of_le hahead)
  obtain ⟨o, p', hx, hy, -⟩ := hagree p hp
  exact hx.trans hy.symm

/-- Nothing is in progress after a search for a constant of a package. -/
theorem inProgress_run_searchFor {p : Progress} (hp : p.inProgress = []) (name : String) :
    ((searchFor types decls name).run p).2.inProgress = [] := by
  have hahead := Nat.lt_succ_of_le (length_ahead_nil decls)
  have hagree : Agree [] (searchFor types decls name) (searchFor types decls name) :=
    search_agree hahead hahead
  obtain ⟨o, p', hrun, -, hp'⟩ := hagree p hp
  rw [hrun]
  exact hp'

/-! ### Searches in any order -/

/-- The progress after searches for names, one after another, whatever they end in. -/
def progressAfter (types : Types) (decls : List ConstantDecl) : List String → Progress :=
  List.foldl (fun p name => ((searchFor types decls name).run p).2) {}

/-- **A search changes nothing but the values found.**  From any progress with right values and
nothing under way it leads to such a progress. -/
theorem sound_run_searchFor {p : Progress} (hp : Sound types decls [] p) (name : String) :
    Sound types decls [] ((searchFor types decls name).run p).2 := by
  obtain ⟨o, p', hrun, hp', -⟩ := searchFor_tells name p hp
  rwa [hrun]

/-- Whatever was looked for, the values that were found are right and nothing is under way. -/
theorem sound_progressAfter (names : List String) :
    Sound types decls [] (progressAfter types decls names) := by
  suffices h : ∀ p, Sound types decls [] p → Sound types decls []
      (names.foldl (fun p name => ((searchFor types decls name).run p).2) p) from h {} sound_empty
  induction names with
  | nil => exact fun p hp => hp
  | cons name rest ih => exact fun p hp => ih _ (sound_run_searchFor hp name)

/-- A constant is recorded without a value when its evaluation ends in a refusal or a cycle. -/
theorem recorded_absent_iff {decl : ConstantDecl} {o : Except Constant.Failure Typed} :
    (∃ type, recorded decl o = .ok (.absent, type)) ↔
      (∃ cause, o = .error (.refused cause)) ∨ ∃ name, o = .error (.cycle name) := by
  cases o with
  | ok typed => simp [recorded]
  | error cause => cases cause <;> simp [recorded]

/-- A name has no value: its evaluation comes to a place where it is stopped by a refusal or by a
cycle. -/
def Unevaluated (types : Types) (decls : List ConstantDecl) (name : String) : Prop :=
  ∃ p, Reaches types decls (.ofName name) p ∧
    ((∃ cause, Stops types decls p (.refused cause)) ∨ ∃ s, Stops types decls p (.cycle s))

theorem unevaluated_iff {name : String} : Unevaluated types decls name ↔
    (∃ cause, direct types decls [] name = .error (.refused cause)) ∨
      ∃ s, direct types decls [] name = .error (.cycle s) := by
  simp only [direct_nil_eq_error_iff]
  constructor
  · rintro ⟨p, hreach, ⟨cause, hstop⟩ | ⟨s, hstop⟩⟩
    · exact .inl ⟨cause, p, hreach, hstop⟩
    · exact .inr ⟨s, p, hreach, hstop⟩
  · rintro (⟨cause, p, hreach, hstop⟩ | ⟨s, p, hreach, hstop⟩)
    · exact ⟨p, hreach, .inl ⟨cause, hstop⟩⟩
    · exact ⟨p, hreach, .inr ⟨s, hstop⟩⟩

/-- What is recorded for a constant that is evaluated by recursion alone. -/
def recordedAlone (types : Types) (decls : List ConstantDecl) (decl : ConstantDecl) :
    Except EnumHelpers.Failure (ConstantDecl × Recorded × Option String) :=
  (recorded decl (direct types decls [] decl.name)).map fun here => (decl, here)

/-- From any progress with right values, constants are recorded in any order with what recursion
alone comes to. -/
theorem recordAll_eq_alone (order : List ConstantDecl) {p : Progress}
    (hp : Sound types decls [] p) :
    recordAll types decls p order = order.mapM (recordedAlone types decls) := by
  rw [recordAll_eq order hp]
  refine mapM_congr fun decl _ => ?_
  rw [recordedFor, recordedAlone, recorded_direct]

/-- **What is recorded does not depend on the order.**  Whatever was looked for before: constants
are recorded in any order with what recursion alone comes to; and the search for one constant ends,
with no more searches within it than there are declarations, so that what is recorded is what
recursion alone comes to.  Nothing is in progress then, and the constant has no value if and only if
its evaluation comes to a place where it is stopped by a refusal or by a cycle (`Unevaluated`). -/
theorem recorded_of_history (types : Types) (decls : List ConstantDecl) (before : List String) :
    (∀ order, recordAll types decls (progressAfter types decls before) order =
      order.mapM (recordedAlone types decls)) ∧
    ∀ decl : ConstantDecl, ∃ o after,
      (∀ more, (search types decls (decls.length + 1 + more) decl.name).run
        (progressAfter types decls before) = (o, after)) ∧
      after.inProgress = [] ∧
      recorded decl o = recorded decl (direct types decls [] decl.name) ∧
      ((∃ type, recorded decl o = .ok (.absent, type)) ↔ Unevaluated types decls decl.name) := by
  have hsound : Sound types decls [] (progressAfter types decls before) :=
    sound_progressAfter before
  refine ⟨fun order => recordAll_eq_alone order hsound, fun decl => ?_⟩
  obtain ⟨o, after, hrun, hafter, hanswer⟩ := searchFor_tells decl.name _ hsound
  have hrecorded : recorded decl o = recorded decl (direct types decls [] decl.name) :=
    (recorded_of_answers hanswer).trans (recorded_direct decl).symm
  refine ⟨o, after, fun more => ?_, hafter.inProgress, hrecorded, ?_⟩
  · rw [run_search_eq (by omega) hsound.inProgress, hrun]
  · rw [hrecorded, recorded_absent_iff, unevaluated_iff]

end EnumHelpers.Package
