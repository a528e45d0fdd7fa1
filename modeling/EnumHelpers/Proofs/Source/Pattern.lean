import EnumHelpers.Source.File

/-!
# Proofs — trees from patterns

What a pattern gives is made of the tokens that it takes: a property that all tokens of a row have
is one of all leaves, and of the tokens after them (`keepsRuns`).  Only the mark that a token stands
on a new line is taken off, so the property must not depend on it (`Steady`).

A declaration of a type has a target in its tree because its pattern has one (`Pattern.targeted`),
as all patterns of the grammar do.  In the same way a declaration of constants has a token, since
names come first in its pattern.
-/

namespace EnumHelpers.Source

/-- A property of tokens that does not depend on line breaks. -/
def Steady (P : Token → Prop) : Prop := ∀ t, P t → P { t with lineBefore := false }

/-! ### Trees -/

/-- What the parts of a tree have to hold by its label: the declaration of a type has a target, and
one of constants has a token. -/
def Label.Fits (label : Label) (parts : List Tree) : Prop :=
  match label with
  | .typeSpec | .alias => (partsOf? .type parts).isSome = true
  | .constSpec => Tree.tokensOfAll parts ≠ []
  | _ => True

mutual

/-- The leaves of a tree have a property, and all parts in it hold what they have to. -/
def Tree.Keeps (P : Token → Prop) : Tree → Prop
  | .leaf t => P t
  | .node label parts => label.Fits parts ∧ KeepAll P parts

/-- The same of several trees. -/
def KeepAll (P : Token → Prop) : List Tree → Prop
  | [] => True
  | t :: rest => t.Keeps P ∧ KeepAll P rest

end

variable {P : Token → Prop} {ts rest : List Token} {trees : List Tree}

theorem keepAll_append {a b : List Tree} (ha : KeepAll P a) (hb : KeepAll P b) :
    KeepAll P (a ++ b) := by
  induction a with
  | nil => exact hb
  | cons t a ih => exact ⟨ha.1, ih ha.2⟩

theorem keepAll_leaves (h : ∀ t ∈ ts, P t) : KeepAll P (ts.map Tree.leaf) := by
  induction ts with
  | nil => trivial
  | cons t ts ih =>
      rw [List.forall_mem_cons] at h
      exact ⟨h.1, ih h.2⟩

mutual

theorem Tree.Keeps.tokens : (t : Tree) → t.Keeps P → ∀ token ∈ t.tokens, P token
  | .leaf _, h => List.forall_mem_singleton.mpr h
  | .node _ parts, h => KeepAll.tokens parts h.2

theorem KeepAll.tokens : (trees : List Tree) → KeepAll P trees →
    ∀ token ∈ Tree.tokensOfAll trees, P token
  | [], _ => nofun
  | t :: rest, h => fun token hm =>
      (List.mem_append.mp hm).elim (Tree.Keeps.tokens t h.1 token) (KeepAll.tokens rest h.2 token)

end

/-- The parts of a tree among others are kept as they are. -/
theorem KeepAll.partsOf? {label : Label} {parts : List Tree} (h : KeepAll P trees)
    (hp : partsOf? label trees = some parts) : KeepAll P parts := by
  induction trees with
  | nil => cases hp
  | cons t trees ih =>
      cases t with
      | leaf t => exact ih h.2 hp
      | node l ps =>
          rw [Source.partsOf?] at hp
          split at hp
          · cases hp
            exact h.1.2
          · exact ih h.2 hp

theorem KeepAll.mem {t : Tree} (h : KeepAll P trees) (ht : t ∈ trees) : t.Keeps P := by
  induction trees with
  | nil => exact (List.not_mem_nil ht).elim
  | cons t' trees ih =>
      rcases List.mem_cons.mp ht with rfl | ht
      · exact h.1
      · exact ih h.2 ht

/-- The parts of the trees with a label fit it, and are kept as they are. -/
theorem KeepAll.of_mem_allPartsOf {label : Label} {parts : List Tree} (h : KeepAll P trees)
    (hp : parts ∈ allPartsOf label trees) : label.Fits parts ∧ KeepAll P parts := by
  obtain ⟨t, ht, heq⟩ := List.mem_filterMap.mp hp
  have hkeeps := h.mem ht
  split at heq
  · split at heq
    · rename_i hlabel
      cases heq
      exact hlabel ▸ hkeeps
    · cases heq
  · cases heq

theorem isSome_partsOf?_append {label : Label} {a b : List Tree}
    (h : (partsOf? label a).isSome = true ∨ (partsOf? label b).isSome = true) :
    (partsOf? label (a ++ b)).isSome = true := by
  induction a with
  | nil => exact h.resolve_left nofun
  | cons t a ih =>
      cases t with
      | leaf t => exact ih h
      | node l ps =>
          rw [List.cons_append, partsOf?]
          rw [partsOf?] at h
          split
          · rfl
          · rename_i hl
            rw [if_neg hl] at h
            exact ih h

/-! ### Tokens that are taken -/

/-- What is taken from a row of tokens, and what is left, have a property. -/
def KeepsTaken (P : Token → Prop) (taken : Taken) : Prop :=
  ∀ trees rest, taken = some (trees, rest) → KeepAll P trees ∧ ∀ t ∈ rest, P t

theorem takeGlued_eq {cs : List Char} {taken : List Token}
    (h : takeGlued cs ts = some (taken, rest)) : ts = taken ++ rest := by
  induction cs generalizing ts taken with
  | nil =>
      cases h
      rfl
  | cons c cs ih =>
      cases ts with
      | nil => cases h
      | cons t ts =>
          rw [takeGlued] at h
          split at h
          · obtain ⟨⟨more, rest'⟩, hm, heq⟩ := Option.map_eq_some_iff.mp h
            cases heq
            rw [ih hm, List.cons_append]
          · cases h

theorem takeMark_eq {s : String} {taken : List Token} (h : takeMark s ts = some (taken, rest)) :
    ts = taken ++ rest := by
  rw [takeMark.eq_def] at h
  split at h
  · split at h
    · obtain ⟨⟨more, rest'⟩, hm, heq⟩ := Option.map_eq_some_iff.mp h
      cases heq
      rw [takeGlued_eq hm, List.cons_append]
    · cases h
  · cases h

theorem takeOperator_eq {c : Context} {taken : List Token}
    (h : takeOperator c ts = some (taken, rest)) : ts = taken ++ rest := by
  rw [takeOperator] at h
  split at h
  · cases h
  · split at h
    · split at h
      · cases h
      · exact takeMark_eq h
    · cases h

theorem takeAssignment_eq {taken : List Token} (h : takeAssignment ts = some (taken, rest)) :
    ts = taken ++ rest := by
  rw [takeAssignment] at h
  split at h
  · exact takeMark_eq h
  · cases h

/-- Tokens that are taken as leaves are those at the front. -/
theorem keepsTaken_leaves {taken : Option (List Token × List Token)}
    (h : ∀ front rest, taken = some (front, rest) → ts = front ++ rest) (hts : ∀ t ∈ ts, P t) :
    KeepsTaken P (leaves taken) := by
  intro trees rest hl
  obtain ⟨⟨front, rest'⟩, ht, heq⟩ := Option.map_eq_some_iff.mp hl
  cases heq
  rw [h _ _ ht, List.forall_mem_append] at hts
  exact ⟨keepAll_leaves hts.1, hts.2⟩

/-- What is taken after something that was taken. -/
theorem KeepsTaken.after {first : List Tree} {next : Taken} (hfirst : KeepAll P first)
    (h : KeepsTaken P next) :
    KeepsTaken P (next.map fun (more, rest) => (first ++ more, rest)) := by
  intro trees rest hmap
  obtain ⟨⟨more, rest'⟩, hmore, heq⟩ := Option.map_eq_some_iff.mp hmap
  cases heq
  obtain ⟨hright, hrest⟩ := h _ _ hmore
  exact ⟨keepAll_append hfirst hright, hrest⟩

theorem keepsTaken_nothing (hts : ∀ t ∈ ts, P t) : KeepsTaken P (some ([], ts)) := by
  rintro _ _ ⟨⟩
  exact ⟨trivial, hts⟩

theorem keepsTaken_takeOne (test : Token → Bool) (hts : ∀ t ∈ ts, P t) :
    KeepsTaken P (takeOne test ts) := by
  intro trees rest h
  cases ts with
  | nil => cases h
  | cons t ts =>
      rw [List.forall_mem_cons] at hts
      rw [takeOne] at h
      split at h
      · cases h
        exact ⟨⟨hts.1, trivial⟩, hts.2⟩
      · cases h

theorem keeps_takeTerminator (hP : Steady P) (hts : ∀ t ∈ ts, P t)
    (h : takeTerminator ts = some rest) : ∀ t ∈ rest, P t := by
  cases ts with
  | nil =>
      cases h
      exact hts
  | cons t ts =>
      rw [takeTerminator] at h
      have hall := List.forall_mem_cons.mp hts
      split at h
      · cases h
        exact List.forall_mem_cons.mpr ⟨hP t hall.1, hall.2⟩
      · split at h
        · cases h
          exact hall.2
        · split at h
          · cases h
            exact hts
          · cases h

/-! ### Patterns -/

/-- Whether a pattern gives a target. -/
def Pattern.isTarget : Pattern → Bool
  | .node .type _ => true
  | _ => false

/-- Whether a pattern is a row with a target in it. -/
def Pattern.givesTarget : Pattern → Bool
  | .seq ps => ps.any isTarget
  | _ => false

/-- Whether a pattern is a row that names come first in. -/
def Pattern.givesNames : Pattern → Bool
  | .seq (.node .names (.seq (.name :: _)) :: _) => true
  | _ => false

/-- Whether a pattern gives what a tree with a label has to hold. -/
def Pattern.fits (label : Label) (p : Pattern) : Bool :=
  match label with
  | .typeSpec | .alias => p.givesTarget
  | .constSpec => p.givesNames
  | _ => true

mutual

/-- Whether every declaration in a pattern gives what its tree has to hold. -/
def Pattern.targeted : Pattern → Bool
  | .seq ps | .alt ps => allTargeted ps
  | .opt p | .many p | .within _ p | .value p | .whereLiterals p | .joined p | .before p
  | .unless p => p.targeted
  | .node label p => p.fits label && p.targeted
  | .name | .word _ | .literal _ | .mark _ | .operator | .assignment | .terminator | .finish
  | .rule _ => true

/-- The same of several patterns. -/
def allTargeted : List Pattern → Bool
  | [] => true
  | p :: rest => p.targeted && allTargeted rest

end

/-- Every declaration in the grammar gives what its tree has to hold. -/
theorem targeted_grammar (r : Rule) : (grammar r).targeted = true := by
  cases r <;> rfl

/-! ### Runs -/

variable {g : Rule → Pattern}

/-- A row of patterns with a target in it gives a tree with a target. -/
theorem isSome_target_of_runAll {fuel : Nat} {c : Context} {ps : List Pattern}
    (hps : ps.any Pattern.isTarget = true)
    (h : Pattern.runAll g fuel c ps ts = some (trees, rest)) :
    (partsOf? .type trees).isSome = true := by
  induction ps generalizing fuel ts trees with
  | nil => cases hps
  | cons p ps ih =>
      cases fuel with
      | zero => cases h
      | succ fuel =>
          rw [Pattern.runAll] at h
          split at h
          · rename_i first rest' hfirst
            obtain ⟨⟨more, rest''⟩, hmore, heq⟩ := Option.map_eq_some_iff.mp h
            cases heq
            apply isSome_partsOf?_append
            rw [List.any_cons, Bool.or_eq_true] at hps
            rcases hps with hp | hps
            · refine .inl ?_
              rw [Pattern.isTarget.eq_def] at hp
              split at hp
              · cases fuel with
                | zero => cases hfirst
                | succ fuel =>
                    rw [Pattern.run] at hfirst
                    obtain ⟨⟨parts, rest''⟩, -, heq⟩ := Option.map_eq_some_iff.mp hfirst
                    cases heq
                    rfl
              · cases hp
            · exact .inr (ih hps hmore)
          · cases h

/-- A declaration of a type has a target when its pattern gives one. -/
theorem isSome_target_of_run {fuel : Nat} {c : Context} {p : Pattern}
    (hp : p.givesTarget = true) (h : Pattern.run g fuel c p ts = some (trees, rest)) :
    (partsOf? .type trees).isSome = true := by
  rw [Pattern.givesTarget.eq_def] at hp
  split at hp
  · cases fuel with
    | zero => cases h
    | succ fuel =>
        rw [Pattern.run] at h
        exact isSome_target_of_runAll hp h
  · cases hp

/-- A row of patterns gives what the first of them gives, and more. -/
theorem first_of_runAll {fuel : Nat} {c : Context} {p : Pattern} {ps : List Pattern}
    (h : Pattern.runAll g fuel c (p :: ps) ts = some (trees, rest)) :
    ∃ fuel first left more, Pattern.run g fuel c p ts = some (first, left) ∧
      trees = first ++ more := by
  cases fuel with
  | zero => cases h
  | succ fuel =>
      rw [Pattern.runAll] at h
      split at h
      · rename_i first left hfirst
        obtain ⟨⟨more, rest'⟩, -, heq⟩ := Option.map_eq_some_iff.mp h
        cases heq
        exact ⟨fuel, first, left, more, hfirst, rfl⟩
      · cases h

theorem first_of_run {fuel : Nat} {c : Context} {p : Pattern} {ps : List Pattern}
    (h : Pattern.run g fuel c (.seq (p :: ps)) ts = some (trees, rest)) :
    ∃ fuel first left more, Pattern.run g fuel c p ts = some (first, left) ∧
      trees = first ++ more := by
  cases fuel with
  | zero => cases h
  | succ fuel =>
      rw [Pattern.run] at h
      exact first_of_runAll h

/-- A declaration of constants has a token when names come first in its pattern. -/
theorem tokens_ne_nil_of_run {fuel : Nat} {c : Context} {p : Pattern}
    (hp : p.givesNames = true) (h : Pattern.run g fuel c p ts = some (trees, rest)) :
    Tree.tokensOfAll trees ≠ [] := by
  rw [Pattern.givesNames.eq_def] at hp
  split at hp
  · obtain ⟨fuel, names, left, more, hnames, rfl⟩ := first_of_run h
    cases fuel with
    | zero => cases hnames
    | succ fuel =>
        rw [Pattern.run] at hnames
        obtain ⟨⟨parts, left'⟩, hparts, heq⟩ := Option.map_eq_some_iff.mp hnames
        cases heq
        obtain ⟨fuel, first, left'', others, hfirst, rfl⟩ := first_of_run hparts
        cases fuel with
        | zero => cases hfirst
        | succ fuel =>
            rw [Pattern.run] at hfirst
            cases ts with
            | nil => cases hfirst
            | cons t ts =>
                rw [takeOne] at hfirst
                split at hfirst
                · cases hfirst
                  simp [Tree.tokensOfAll, Tree.tokens]
                · cases hfirst
  · cases hp

/-- What a pattern gives for a tree with a label fits the label. -/
theorem fits_of_run {fuel : Nat} {c : Context} {p : Pattern} {label : Label}
    (hp : p.fits label = true) (h : Pattern.run g fuel c p ts = some (trees, rest)) :
    label.Fits trees := by
  cases label with
  | typeSpec | «alias» => exact isSome_target_of_run hp h
  | constSpec => exact tokens_ne_nil_of_run hp h
  | _ => trivial

/-- With some fuel, what patterns give is made of the tokens that they take. -/
structure KeepsRuns (g : Rule → Pattern) (P : Token → Prop) (fuel : Nat) : Prop where
  run : ∀ c p ts, p.targeted = true → (∀ t ∈ ts, P t) → KeepsTaken P (Pattern.run g fuel c p ts)
  runAll : ∀ c ps ts, allTargeted ps = true → (∀ t ∈ ts, P t) →
    KeepsTaken P (Pattern.runAll g fuel c ps ts)
  runFirst : ∀ c ps ts, allTargeted ps = true → (∀ t ∈ ts, P t) →
    KeepsTaken P (Pattern.runFirst g fuel c ps ts)

namespace KeepsRuns

variable {fuel : Nat} {c : Context} {p : Pattern} {ps : List Pattern}

theorem run_succ (h : KeepsRuns g P fuel) (hg : ∀ r, (g r).targeted = true) (hP : Steady P)
    (hp : p.targeted = true) (hts : ∀ t ∈ ts, P t) :
    KeepsTaken P (Pattern.run g (fuel + 1) c p ts) := by
  cases p with
  | name => exact keepsTaken_takeOne _ hts
  | word s => exact keepsTaken_takeOne _ hts
  | literal kind => exact keepsTaken_takeOne _ hts
  | finish => exact keepsTaken_takeOne _ hts
  | mark s => exact keepsTaken_leaves (fun _ _ => takeMark_eq) hts
  | operator => exact keepsTaken_leaves (fun _ _ => takeOperator_eq) hts
  | assignment => exact keepsTaken_leaves (fun _ _ => takeAssignment_eq) hts
  | terminator =>
      intro trees rest hrun
      obtain ⟨rest', ht, heq⟩ := Option.map_eq_some_iff.mp hrun
      cases heq
      exact ⟨trivial, keeps_takeTerminator hP hts ht⟩
  | seq ps => exact h.runAll c ps ts hp hts
  | alt ps => exact h.runFirst c ps ts hp hts
  | opt p =>
      intro trees rest hrun
      rcases Option.or_eq_some_iff.mp hrun with hrun | ⟨-, hrun⟩
      · exact h.run c p ts hp hts _ _ hrun
      · exact keepsTaken_nothing hts _ _ hrun
  | many p =>
      intro trees rest hrun
      rw [Pattern.run] at hrun
      split at hrun
      · rename_i hfirst
        obtain ⟨hleft, hrest⟩ := h.run c p ts hp hts _ _ hfirst
        exact (h.run c (.many p) _ hp hrest).after hleft _ _ hrun
      · exact keepsTaken_nothing hts _ _ hrun
  | rule r => exact h.run c (g r) ts (hg r) hts
  | node label p =>
      intro trees rest hrun
      obtain ⟨⟨parts, rest'⟩, hparts, heq⟩ := Option.map_eq_some_iff.mp hrun
      cases heq
      rw [Pattern.targeted, Bool.and_eq_true] at hp
      obtain ⟨hkeeps, hrest⟩ := h.run c p ts hp.2 hts _ _ hparts
      exact ⟨⟨⟨fits_of_run hp.1 hparts, hkeeps⟩, trivial⟩, hrest⟩
  | within c' p => exact h.run c' p ts hp hts
  | value p => exact h.run _ p ts hp hts
  | whereLiterals p =>
      intro trees rest hrun
      rw [Pattern.run] at hrun
      split at hrun
      · exact h.run c p ts hp hts _ _ hrun
      · cases hrun
  | joined p =>
      intro trees rest hrun
      rw [Pattern.run] at hrun
      split at hrun
      · cases hrun
      · exact h.run c p ts hp hts _ _ hrun
  | before p =>
      intro trees rest hrun
      obtain ⟨-, -, heq⟩ := Option.map_eq_some_iff.mp hrun
      cases heq
      exact ⟨trivial, hts⟩
  | «unless» p =>
      intro trees rest hrun
      rw [Pattern.run] at hrun
      split at hrun
      · cases hrun
      · exact keepsTaken_nothing hts _ _ hrun

theorem runAll_succ (h : KeepsRuns g P fuel) (hps : allTargeted ps = true) (hts : ∀ t ∈ ts, P t) :
    KeepsTaken P (Pattern.runAll g (fuel + 1) c ps ts) := by
  intro trees rest hrun
  cases ps with
  | nil => exact keepsTaken_nothing hts _ _ hrun
  | cons p ps =>
      rw [allTargeted, Bool.and_eq_true] at hps
      rw [Pattern.runAll] at hrun
      split at hrun
      · rename_i hfirst
        obtain ⟨hleft, hrest⟩ := h.run c p ts hps.1 hts _ _ hfirst
        exact (h.runAll c ps _ hps.2 hrest).after hleft _ _ hrun
      · cases hrun

theorem runFirst_succ (h : KeepsRuns g P fuel) (hps : allTargeted ps = true)
    (hts : ∀ t ∈ ts, P t) : KeepsTaken P (Pattern.runFirst g (fuel + 1) c ps ts) := by
  intro trees rest hrun
  cases ps with
  | nil => cases hrun
  | cons p ps =>
      rw [allTargeted, Bool.and_eq_true] at hps
      rw [Pattern.runFirst] at hrun
      split at hrun
      · rename_i hfirst
        cases hrun
        exact h.run c p ts hps.1 hts _ _ hfirst
      · exact h.runFirst c ps ts hps.2 hts _ _ hrun

end KeepsRuns

/-- **What patterns give is made of the tokens that they take.** -/
theorem keepsRuns (hg : ∀ r, (g r).targeted = true) (hP : Steady P) (fuel : Nat) :
    KeepsRuns g P fuel := by
  induction fuel with
  | zero => exact ⟨fun _ _ _ _ _ => nofun, fun _ _ _ _ _ => nofun, fun _ _ _ _ _ => nofun⟩
  | succ fuel ih =>
      exact ⟨fun _ _ _ hp hts => ih.run_succ hg hP hp hts,
        fun _ _ _ hps hts => ih.runAll_succ hps hts, fun _ _ _ hps hts => ih.runFirst_succ hps hts⟩

/-- The trees of a source file keep a property of its tokens. -/
theorem treesOf_keeps (hP : Steady P) (hts : ∀ t ∈ ts, P t) (h : treesOf ts = some trees) :
    KeepAll P trees := by
  obtain ⟨⟨trees', rest⟩, hrun, heq⟩ := Option.map_eq_some_iff.mp h
  cases heq
  exact ((keepsRuns targeted_grammar hP _).run _ _ ts rfl hts _ _ hrun).1

end EnumHelpers.Source
