import EnumHelpers.Proofs.Package.Denotation
import EnumHelpers.Proofs.OrderedMap
import EnumHelpers.Proofs.Outcome
import Mathlib.Data.List.Perm.Subperm

/-!
# Proofs — the search for values

A search keeps what it finds and refuses to meet a constant again whose value is being looked for.
Neither changes what a name stands for: from any progress whose values are right, the search for a
name ends with what the name stands for, or, when it stands for nothing, with a cycle
(`search_tells`).

The induction is on the fuel.  A constant in progress *needs* the name that is looked for: it has
no outcome at some depth when the name has none.  So a name that is met again needs itself, and has
no outcome at any depth.

* `recordAll_eq`: the constants of a package are recorded with what their names stand for.
-/

namespace EnumHelpers.Package

variable {α β : Type}

/-! ### Runs of a search -/

/-- Outcomes that depend on a depth, and stay with more of it. -/
def Mono (f : Nat → Outcome α) : Prop := ∀ m n, m ≤ n → Extends (f m) (f n)

theorem Mono.unique {f : Nat → Outcome α} (h : Mono f) {m n : Nat}
    {o o' : Except Constant.Failure α} (hm : f m = some o) (hn : f n = some o') : o = o' := by
  have hm := h m _ (Nat.le_max_left m n) o hm
  have hn := h n _ (Nat.le_max_right m n) o' hn
  exact Option.some.inj (hm.symm.trans hn)

/-- A search ends with the outcome at some depth, or with a cycle when there is none at any. -/
def Answers (o : Except Constant.Failure α) (f : Nat → Outcome α) : Prop :=
  (∃ n, f n = some o) ∨ ((∃ name, o = .error (.cycle name)) ∧ ∀ n, f n = none)

/-- From any progress with a property, a search keeps the property and ends as `f` says. -/
def Tells (I : Progress → Prop) (x : Search α) (f : Nat → Outcome α) : Prop :=
  ∀ p, I p → ∃ o p', x.run p = (o, p') ∧ I p' ∧ Answers o f

variable {I : Progress → Prop}

theorem tells_const (o : Except Constant.Failure α) {x : Search α} (h : ∀ p, x.run p = (o, p)) :
    Tells I x fun _ => some o :=
  fun p hp => ⟨o, p, h p, hp, .inl ⟨0, rfl⟩⟩

/-- A computation on an outcome, without a search. -/
theorem tells_of (o : Except Constant.Failure α) (g : α → β) :
    Tells I (do let a ← Search.of o; pure (g a)) fun _ => some (o.map g) := by
  refine tells_const _ fun p => ?_
  cases o with
  | error cause => exact run_bind_error rfl
  | ok a => exact run_bind_ok rfl

/-- A search with another one after it. -/
theorem Tells.bind {x : Search α} {g : α → Search β} {f : Nat → Outcome α}
    {h : α → Nat → Outcome β} (hx : Tells I x f) (hf : Mono f)
    (hg : ∀ a, (∃ n, f n = some (.ok a)) → Tells I (g a) (h a)) (hh : ∀ a, Mono (h a)) :
    Tells I (x >>= g) fun n => (f n).bind fun a => h a n := by
  intro p hp
  obtain ⟨o, p', hrun, hp', hanswer⟩ := hx p hp
  cases o with
  | error cause =>
      refine ⟨.error cause, p', run_bind_error hrun, hp', ?_⟩
      rcases hanswer with ⟨n, hn⟩ | ⟨⟨name, hc⟩, hnone⟩
      · exact .inl ⟨n, by simp only [hn, Outcome.bind]⟩
      · exact .inr ⟨⟨name, by cases hc; rfl⟩, fun n => by simp only [hnone n, Outcome.bind]⟩
  | ok a =>
      obtain ⟨n, hn⟩ : ∃ n, f n = some (.ok a) := by
        rcases hanswer with h | ⟨⟨_, hc⟩, -⟩
        · exact h
        · cases hc
      obtain ⟨o', p'', hrun', hp'', hanswer'⟩ := hg a ⟨n, hn⟩ p' hp'
      refine ⟨o', p'', (run_bind_ok hrun).trans hrun', hp'', ?_⟩
      rcases hanswer' with ⟨m, hm⟩ | ⟨hc, hnone⟩
      · have hn := hf n _ (Nat.le_max_left n m) _ hn
        have hm := hh a m _ (Nat.le_max_right n m) _ hm
        exact .inl ⟨max n m, by simp only [hn, Outcome.bind, hm]⟩
      · refine .inr ⟨hc, fun k => ?_⟩
        cases hk : f k with
        | none => simp only [hk, Outcome.bind]
        | some o =>
            rw [hf.unique hk hn] at hk
            simp only [hk, Outcome.bind, hnone k]

/-! ### Expressions -/

variable {types : Types} {iota : Nat} {names : Nat → String → Outcome Typed}
  {lookup : String → Search Typed} {goal : Nat → Prop}

theorem mono_denote (hn : ∀ s, Mono fun n => names n s) (e : Expr) :
    Mono fun n => denote types (names n) iota e :=
  fun m n h => denote_extends (fun s => hn s m n h) e

theorem mono_const (o : Outcome α) : Mono fun _ => o := fun _ _ _ => .refl _

/-- An expression is evaluated to what it stands for when the names that the evaluation meets are.
A name is met only where the whole has no outcome without one of the name: `goal` says so of the
whole. -/
theorem evaluate_tells (hn : ∀ s, Mono fun n => names n s)
    (hl : ∀ s, (∀ n, names n s = none → goal n) → Tells I (lookup s) fun n => names n s)
    (e : Expr) (hgoal : ∀ n, denote types (names n) iota e = none → goal n) :
    Tells I (evaluate types lookup iota e) fun n => denote types (names n) iota e := by
  induction e with
  | int text | float text | rune text => exact tells_of _ _
  | string text | truth b | iota => exact tells_const _ fun _ => rfl
  | unsupported | notText => exact tells_const _ fun _ => rfl
  | name s => exact hl s hgoal
  | paren e ih => exact ih hgoal
  | unary op e ih =>
      refine (ih fun n h => hgoal n ?_).bind (mono_denote hn e) (fun _ _ => tells_of _ _)
        fun _ => mono_const _
      rw [denote, h]
      rfl
  | binary op l r ihl ihr =>
      refine (ihl fun n h => hgoal n ?_).bind (mono_denote hn l) (fun left hleft => ?_) ?_
      · rw [denote, h]
        rfl
      · refine (ihr fun n h => hgoal n ?_).bind (mono_denote hn r) (fun _ _ => tells_of _ _)
          fun _ => mono_const _
        obtain ⟨m, hm⟩ := hleft
        rw [denote, h]
        cases hk : denote types (names n) iota l with
        | none => rfl
        | some o =>
            rw [(mono_denote hn l).unique hk hm]
            rfl
      · exact fun left m n h => (mono_denote hn r m n h).bind fun _ => .refl _
  | conversion type e ih =>
      simp only [evaluate, denote] at hgoal ⊢
      split
      · rename_i ht
        refine (ih fun n h => hgoal n ?_).bind (mono_denote hn e)
          (fun _ _ => tells_const _ fun _ => rfl) fun _ => mono_const _
        rw [if_pos ht, h]
        rfl
      · exact tells_const _ fun _ => rfl

/-! ### Names -/

variable {decls : List ConstantDecl}

/-- The constants in `stack` are in progress, and every value that was found is the right one. -/
structure Sound (types : Types) (decls : List ConstantDecl) (stack : List String)
    (p : Progress) : Prop where
  inProgress : p.inProgress = stack
  found : ∀ name t, OrderedMap.get? name p.found = some t → Settles types decls name (.ok t)

theorem mono_meaning (name : String) : Mono fun n => meaning types decls n name :=
  fun _ _ h => meaning_mono h name

theorem name_of_declOf? {name : String} {decl : ConstantDecl} (h : declOf? decls name = some decl) :
    decl.name = name ∧ decl ∈ decls := by
  refine ⟨by simpa using List.find?_some h, ?_⟩
  exact List.mem_reverse.mp (List.mem_of_find?_eq_some h)

/-- A name that has no outcome at some depth when it has none at a lesser depth has none. -/
theorem diverges_of_needs {name : String} {k : Nat}
    (h : ∀ n, meaning types decls n name = none → meaning types decls (n + k + 1) name = none) :
    ∀ n, meaning types decls n name = none := by
  intro n
  have hlarge : ∃ m, n ≤ m ∧ meaning types decls m name = none := by
    induction n with
    | zero => exact ⟨0, Nat.le_refl 0, rfl⟩
    | succ n ih =>
        obtain ⟨m, hm, hnone⟩ := ih
        exact ⟨m + k + 1, by omega, h m hnone⟩
  obtain ⟨m, hm, hnone⟩ := hlarge
  cases ho : meaning types decls n name with
  | none => rfl
  | some o =>
      rw [meaning_mono hm name o ho] at hnone
      cases hnone

/-- The expression of a constant stands for what its name does, one depth further. -/
theorem meaning_succ {name : String} {decl : ConstantDecl} {e : Expr}
    (hd : declOf? decls name = some decl) (he : decl.expression = some e) (n : Nat) :
    meaning types decls (n + 1) name =
      (denote types (meaning types decls n) decl.iota e).map (·.map decl.settled) := by
  simp only [meaning, declared, hd, he]

variable {stack : List String} {name : String}

/-- A search within the search for a constant, which is in progress meanwhile. -/
theorem Tells.whileInProgress {x : Search Typed} {f : Nat → Outcome Typed}
    (h : Tells (Sound types decls (name :: stack)) x f) :
    Tells (Sound types decls stack) (whileInProgress name x) f := by
  intro p hp
  obtain ⟨o, p', hrun, hp', hanswer⟩ :=
    h { p with inProgress := name :: p.inProgress } ⟨by rw [hp.inProgress], hp.found⟩
  refine ⟨o, { p' with inProgress := p'.inProgress.erase name }, ?_, ⟨?_, hp'.found⟩, hanswer⟩
  · have hrun : (x : StateT Progress Id _) { p with inProgress := name :: p.inProgress } =
        (o, p') := hrun
    simp only [Package.whileInProgress, ExceptT.run, ExceptT.mk, hrun]
  · simp only [hp'.inProgress, List.erase_cons_head]

/-- What is found is kept. -/
theorem tells_keep {t : Typed} (h : Settles types decls name (.ok t)) :
    Tells (Sound types decls stack)
      (do modify fun p => { p with found := OrderedMap.put name t p.found }; pure t)
      fun _ => some (.ok t) := by
  intro p hp
  refine ⟨.ok t, { p with found := OrderedMap.put name t p.found }, rfl, ⟨hp.inProgress, ?_⟩,
    .inl ⟨0, rfl⟩⟩
  intro name' t' ht'
  rw [OrderedMap.get?_put] at ht'
  split at ht'
  · rename_i e
    cases ht'
    exact e ▸ h
  · exact hp.found name' t' ht'

theorem Answers.shift {o : Except Constant.Failure α} {f : Nat → Outcome α} (hf : Mono f)
    (h : Answers o fun n => f (n + 1)) : Answers o f := by
  rcases h with ⟨n, hn⟩ | ⟨hc, hnone⟩
  · exact .inl ⟨n + 1, hn⟩
  · refine .inr ⟨hc, fun n => ?_⟩
    cases ho : f n with
    | none => rfl
    | some o =>
        have hsome : f (n + 1) = some o := hf n (n + 1) (Nat.le_succ n) o ho
        have hnone : f (n + 1) = none := hnone n
        rw [hsome] at hnone
        cases hnone

/-- What a constant in progress meets, it needs, and so does what needs it. -/
theorem needs_cons {s : String}
    (hneeds : ∀ c ∈ stack, ∃ k, ∀ n, meaning types decls n name = none →
      meaning types decls (n + k + 1) c = none)
    (hs : ∀ n, meaning types decls n s = none → meaning types decls (n + 1) name = none) :
    ∀ c ∈ name :: stack, ∃ k, ∀ n, meaning types decls n s = none →
      meaning types decls (n + k + 1) c = none := by
  intro c hc
  rcases List.mem_cons.mp hc with rfl | hc
  · exact ⟨0, hs⟩
  · obtain ⟨k, hk⟩ := hneeds c hc
    refine ⟨k + 1, fun n hn => ?_⟩
    have hnone := hk (n + 1) (hs n hn)
    rwa [show n + 1 + k + 1 = n + (k + 1) + 1 by omega] at hnone

/-- A search whose expression is evaluated to what it stands for finds what its name stands for. -/
theorem search_step {fuel : Nat} {decl : ConstantDecl} {e : Expr}
    (hd : declOf? decls name = some decl) (he : decl.expression = some e)
    (h : Tells (Sound types decls (name :: stack))
      (evaluate types (search types decls fuel) decl.iota e)
      fun n => denote types (meaning types decls n) decl.iota e) :
    Tells (Sound types decls stack)
      (do
        let typed ← whileInProgress name (evaluate types (search types decls fuel) decl.iota e)
        let result : Typed := ⟨typed.value.normalize, decl.type.or typed.type⟩
        modify fun p => { p with found := OrderedMap.put name result p.found }
        pure result)
      fun n => meaning types decls (n + 1) name := by
  have hbind : ∀ n, meaning types decls (n + 1) name =
      (denote types (meaning types decls n) decl.iota e).bind
        fun typed => some (.ok (decl.settled typed)) := by
    intro n
    rw [meaning_succ hd he]
    cases denote types (meaning types decls n) decl.iota e with
    | none => rfl
    | some o => cases o <;> rfl
  simp only [hbind]
  refine h.whileInProgress.bind (mono_denote mono_meaning e) (fun typed htyped => ?_)
    fun _ => mono_const _
  obtain ⟨n, hn⟩ := htyped
  refine tells_keep ⟨n + 1, ?_⟩
  rw [hbind, hn]
  rfl

/-- **The search for a name.**  The constants in `stack` are declared, and each of them needs the
name. -/
theorem search_tells (fuel : Nat) (hnodup : stack.Nodup)
    (hdecl : stack ⊆ decls.map ConstantDecl.name) (hfuel : decls.length < fuel + stack.length)
    (hneeds : ∀ c ∈ stack, ∃ k, ∀ n, meaning types decls n name = none →
      meaning types decls (n + k + 1) c = none) :
    Tells (Sound types decls stack) (search types decls fuel name)
      fun n => meaning types decls n name := by
  induction fuel generalizing stack name with
  | zero =>
      have hle := (List.subperm_of_subset hnodup hdecl).length_le
      rw [List.length_map] at hle
      omega
  | succ fuel ih =>
      intro p hp
      have hget : (get : Search Progress).run p = (.ok p, p) := rfl
      rw [search, run_bind_ok hget]
      cases hfound : OrderedMap.get? name p.found with
      | some t => exact ⟨.ok t, p, rfl, hp, .inl (hp.found name t hfound)⟩
      | none =>
          dsimp only
          cases hd : declOf? decls name with
          | none => exact ⟨_, p, rfl, hp, .inl ⟨1, by simp only [meaning, declared, hd]⟩⟩
          | some decl =>
              dsimp only
              cases he : decl.expression with
              | none => exact ⟨_, p, rfl, hp, .inl ⟨1, by simp only [meaning, declared, hd, he]⟩⟩
              | some e =>
                  dsimp only
                  split
                  · -- the name is met again, so it needs itself
                    rename_i hc
                    rw [hp.inProgress, List.contains_iff_mem] at hc
                    obtain ⟨k, hk⟩ := hneeds name hc
                    exact ⟨_, p, rfl, hp, .inr ⟨⟨name, rfl⟩, diverges_of_needs hk⟩⟩
                  · rename_i hc
                    rw [hp.inProgress, List.contains_iff_mem] at hc
                    have hsucc : ∀ n, meaning types decls (n + 1) name = _ := meaning_succ hd he
                    obtain ⟨hname, hmem⟩ := name_of_declOf? hd
                    have hlookup : ∀ s, (∀ n, meaning types decls n s = none →
                        meaning types decls (n + 1) name = none) →
                        Tells (Sound types decls (name :: stack)) (search types decls fuel s)
                          fun n => meaning types decls n s :=
                      fun s hs => ih (List.nodup_cons.mpr ⟨hc, hnodup⟩)
                        (List.cons_subset.mpr ⟨hname ▸ List.mem_map_of_mem hmem, hdecl⟩)
                        (by rw [List.length_cons]; omega) (needs_cons hneeds hs)
                    have heval : Tells (Sound types decls (name :: stack))
                        (evaluate types (search types decls fuel) decl.iota e) _ :=
                      evaluate_tells mono_meaning hlookup e fun n hn => by rw [hsucc, hn]; rfl
                    obtain ⟨o, p', hrun, hp', hanswer⟩ := search_step hd he heval p hp
                    exact ⟨o, p', hrun, hp', hanswer.shift (mono_meaning name)⟩

/-! ### The constants of a package -/

/-- From any progress with right values and nothing under way, the search for a constant ends with
what its name stands for. -/
theorem searchFor_tells (name : String) :
    Tells (Sound types decls []) (searchFor types decls name)
      fun n => meaning types decls n name :=
  search_tells _ List.nodup_nil (List.nil_subset _) (by simp) (by simp)

theorem sound_empty : Sound types decls [] {} := ⟨rfl, fun _ _ h => nomatch h⟩

/-- What a name stands for, or a cycle when it stands for nothing. -/
noncomputable def outcome (types : Types) (decls : List ConstantDecl) (name : String) :
    Except Constant.Failure Typed :=
  (final types decls name).getD (.error (.cycle name))

theorem outcome_of_settles {o : Except Constant.Failure Typed} (h : Settles types decls name o) :
    outcome types decls name = o := by
  rw [outcome, final_eq_some.mpr h, Option.getD_some]

theorem outcome_of_diverges (h : ∀ n, meaning types decls n name = none) :
    outcome types decls name = .error (.cycle name) := by
  rw [outcome, final_eq_none.mpr h, Option.getD_none]

/-- What is recorded for a constant. -/
noncomputable def recordedFor (types : Types) (decls : List ConstantDecl) (decl : ConstantDecl) :
    Except EnumHelpers.Failure (ConstantDecl × Recorded × Option String) :=
  (recorded decl (outcome types decls decl.name)).map fun here => (decl, here)

/-- Of the ways in which a constant may lead back to itself nothing is recorded. -/
theorem recorded_of_answers {decl : ConstantDecl} {o : Except Constant.Failure Typed}
    (h : Answers o fun n => meaning types decls n decl.name) :
    recorded decl o = recorded decl (outcome types decls decl.name) := by
  rcases h with hs | ⟨⟨name, rfl⟩, hnone⟩
  · rw [outcome_of_settles hs]
  · rw [outcome_of_diverges hnone]
    rfl

/-- **What is recorded does not depend on the search.**  From any progress with right values, each
constant is recorded with what its name stands for. -/
theorem recordAll_eq (ds : List ConstantDecl) {p : Progress} (hp : Sound types decls [] p) :
    recordAll types decls p ds = ds.mapM (recordedFor types decls) := by
  induction ds generalizing p with
  | nil => rfl
  | cons decl rest ih =>
      obtain ⟨o, p', hrun, hp', hanswer⟩ := searchFor_tells decl.name p hp
      rw [recordAll, hrun, List.mapM_cons, recordedFor]
      dsimp only
      rw [recorded_of_answers hanswer]
      cases recorded decl (outcome types decls decl.name) with
      | error cause => rfl
      | ok here => rw [ok_bind, ih hp']; rfl

end EnumHelpers.Package
