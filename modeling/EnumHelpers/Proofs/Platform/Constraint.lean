import EnumHelpers.Proofs.Platform.Token

/-!
# Proofs — the grammar of a constraint

A constraint is a disjunction of conjunctions of operands, and an operand is a tag, the negation of
an operand, or a disjunction in parentheses.  `Phrase` is this grammar, and gives each phrase its
value where some tags are satisfied.  It speaks of no constraint tree, and no order of reading.

* `phrase_of_ofTokens`: tokens that are read as a constraint are a disjunction of its value.
* `ofTokens_of_phrase`: a disjunction is read as a constraint of its value.
* `reads_exactly_spelled`: a text is read as a constraint exactly if it spells a disjunction, and
  a source file is refused for nothing but a constraint that spells none.
-/

namespace EnumHelpers
namespace Constraint
open Text

/-- What a phrase is made of, from the loosest to the tightest. -/
inductive Level where
  | disjunction | conjunction | operand

/-- Tokens are a phrase, which has a value where `tags` are satisfied. -/
inductive Phrase (tags : List String) : Level → List Token → Bool → Prop
  | tag (name : String) : Phrase tags .operand [.tag name] (decide (name ∈ tags))
  | not {ts : List Token} {b : Bool} (h : Phrase tags .operand ts b) :
      Phrase tags .operand (.not :: ts) (!b)
  | group {ts : List Token} {b : Bool} (h : Phrase tags .disjunction ts b) :
      Phrase tags .operand (.opening :: (ts ++ [.closing])) b
  | ofOperand {ts : List Token} {b : Bool} (h : Phrase tags .operand ts b) :
      Phrase tags .conjunction ts b
  | and {ts us : List Token} {a b : Bool} (ha : Phrase tags .conjunction ts a)
      (hb : Phrase tags .operand us b) : Phrase tags .conjunction (ts ++ .and :: us) (a && b)
  | ofConjunction {ts : List Token} {b : Bool} (h : Phrase tags .conjunction ts b) :
      Phrase tags .disjunction ts b
  | or {ts us : List Token} {a b : Bool} (ha : Phrase tags .disjunction ts a)
      (hb : Phrase tags .conjunction us b) : Phrase tags .disjunction (ts ++ .or :: us) (a || b)

/-- A text is a constraint, which has a value where `tags` are satisfied. -/
def Spelled (tags : List String) (text : String) (b : Bool) : Prop :=
  ∃ ts, Spells text.toList ts ∧ Phrase tags .disjunction ts b

variable {tags : List String} {level : Level} {ts us rest : List Token} {b : Bool} {fuel : Nat}
  {left c : Constraint}

theorem Phrase.length_pos (h : Phrase tags level ts b) : 0 < ts.length := by
  induction h with
  | tag _ | not _ _ | group _ _ => exact Nat.succ_pos _
  | ofOperand _ ih | ofConjunction _ ih => exact ih
  | and _ _ iha _ | or _ _ iha _ =>
      rw [List.length_append]
      exact Nat.add_pos_left iha _

/-! ### Tags in a phrase -/

/-- Between two rows stands what is no tag. -/
theorem Apart.append {joint : Token} (hts : Apart ts) (hus : Apart us) (hjoint : ¬ joint.IsTag) :
    Apart (ts ++ joint :: us) := by
  refine List.isChain_append.mpr ⟨hts, List.isChain_cons.mpr ⟨?_, hus⟩, ?_⟩
  · exact fun _ _ h => absurd h hjoint
  · rintro a _ b hb _
    rw [List.head?_cons, Option.mem_some] at hb
    exact hb ▸ hjoint

/-- In a phrase no two tags stand side by side. -/
theorem Phrase.apart (h : Phrase tags level ts b) : Apart ts := by
  have hnil : Apart [] := List.IsChain.nil
  induction h with
  | tag name => exact List.IsChain.singleton _
  | not _ ih => exact hnil.append ih id
  | group _ ih => exact hnil.append (ih.append hnil id) id
  | ofOperand _ ih | ofConjunction _ ih => exact ih
  | and _ _ iha ihb | or _ _ iha ihb => exact iha.append ihb id

/-! ### Where the parts joined to a constraint end -/

theorem takeAndTail_of_head? (h : ts.head? ≠ some .and) :
    takeAndTail fuel left ts = .ok (left, ts) := by
  rw [takeAndTail.eq_2]
  rintro _ _ _ rfl
  exact absurd rfl h

theorem takeOrTail_of_head? (h : ts.head? ≠ some .or) :
    takeOrTail fuel left ts = .ok (left, ts) := by
  rw [takeOrTail.eq_2]
  rintro _ _ _ rfl
  exact absurd rfl h

/-! ### What is read is a phrase -/

/-- Of the tokens a phrase stands in front of `rest`, and has the value of a constraint. -/
def Took (tags : List String) (level : Level) (ts : List Token) (c : Constraint)
    (rest : List Token) : Prop :=
  ∃ used, used ++ rest = ts ∧ Phrase tags level used (c.holds tags)

/-- What is read with some fuel is a phrase; the parts joined to a constraint are read behind the
phrase that it was read from. -/
structure Sound (tags : List String) (fuel : Nat) : Prop where
  operand {ts : List Token} {c : Constraint} {rest : List Token} :
    takeUnary fuel ts = .ok (c, rest) → Took tags .operand ts c rest
  conjunction {ts : List Token} {c : Constraint} {rest : List Token} :
    takeAnd fuel ts = .ok (c, rest) → Took tags .conjunction ts c rest
  conjunctionTail {front ts : List Token} {left c : Constraint} {rest : List Token} :
    Phrase tags .conjunction front (left.holds tags) →
      takeAndTail fuel left ts = .ok (c, rest) → Took tags .conjunction (front ++ ts) c rest
  disjunction {ts : List Token} {c : Constraint} {rest : List Token} :
    takeOr fuel ts = .ok (c, rest) → Took tags .disjunction ts c rest
  disjunctionTail {front ts : List Token} {left c : Constraint} {rest : List Token} :
    Phrase tags .disjunction front (left.holds tags) →
      takeOrTail fuel left ts = .ok (c, rest) → Took tags .disjunction (front ++ ts) c rest

theorem Sound.zero : Sound tags 0 where
  operand h := by cases h
  conjunction h := by cases h
  conjunctionTail hfront h := by
    cases h
    exact ⟨_, rfl, hfront⟩
  disjunction h := by cases h
  disjunctionTail hfront h := by
    cases h
    exact ⟨_, rfl, hfront⟩

theorem Sound.succ_operand (h : Sound tags fuel) (hread : takeUnary (fuel + 1) ts = .ok (c, rest)) :
    Took tags .operand ts c rest := by
  cases ts with
  | nil => cases hread
  | cons token ts =>
      cases token with
      | tag name =>
          cases hread
          exact ⟨[.tag name], rfl, by simpa [holds] using Phrase.tag name⟩
      | not =>
          obtain ⟨⟨inner, more⟩, hinner, hmore⟩ := bind_eq_ok.mp hread
          cases hmore
          obtain ⟨used, rfl, hused⟩ := h.operand hinner
          exact ⟨.not :: used, rfl, hused.not⟩
      | opening =>
          obtain ⟨⟨inner, more⟩, hinner, hmore⟩ := bind_eq_ok.mp hread
          obtain ⟨used, rfl, hused⟩ := h.disjunction hinner
          cases more with
          | nil => cases hmore
          | cons last more =>
              cases last with
              | closing =>
                  cases hmore
                  exact ⟨.opening :: (used ++ [.closing]), by simp, hused.group⟩
              | _ => cases hmore
      | _ => cases hread

theorem Sound.succ_conjunction (h : Sound tags fuel)
    (hread : takeAnd (fuel + 1) ts = .ok (c, rest)) : Took tags .conjunction ts c rest := by
  obtain ⟨⟨left, more⟩, hleft, htail⟩ := bind_eq_ok.mp hread
  obtain ⟨used, rfl, hused⟩ := h.operand hleft
  exact h.conjunctionTail hused.ofOperand htail

theorem Sound.succ_conjunctionTail {front : List Token} (h : Sound tags fuel)
    (hfront : Phrase tags .conjunction front (left.holds tags))
    (hread : takeAndTail (fuel + 1) left ts = .ok (c, rest)) :
    Took tags .conjunction (front ++ ts) c rest := by
  by_cases hjoint : ts.head? = some .and
  · obtain ⟨ts, rfl⟩ := List.head?_eq_some_iff.mp hjoint
    obtain ⟨⟨right, more⟩, hright, htail⟩ := bind_eq_ok.mp hread
    obtain ⟨used, rfl, hused⟩ := h.operand hright
    simpa using h.conjunctionTail (hfront.and hused) htail
  · rw [takeAndTail_of_head? hjoint] at hread
    cases hread
    exact ⟨front, rfl, hfront⟩

theorem Sound.succ_disjunction (h : Sound tags fuel)
    (hread : takeOr (fuel + 1) ts = .ok (c, rest)) : Took tags .disjunction ts c rest := by
  obtain ⟨⟨left, more⟩, hleft, htail⟩ := bind_eq_ok.mp hread
  obtain ⟨used, rfl, hused⟩ := h.conjunction hleft
  exact h.disjunctionTail hused.ofConjunction htail

theorem Sound.succ_disjunctionTail {front : List Token} (h : Sound tags fuel)
    (hfront : Phrase tags .disjunction front (left.holds tags))
    (hread : takeOrTail (fuel + 1) left ts = .ok (c, rest)) :
    Took tags .disjunction (front ++ ts) c rest := by
  by_cases hjoint : ts.head? = some .or
  · obtain ⟨ts, rfl⟩ := List.head?_eq_some_iff.mp hjoint
    obtain ⟨⟨right, more⟩, hright, htail⟩ := bind_eq_ok.mp hread
    obtain ⟨used, rfl, hused⟩ := h.conjunction hright
    simpa using h.disjunctionTail (hfront.or hused) htail
  · rw [takeOrTail_of_head? hjoint] at hread
    cases hread
    exact ⟨front, rfl, hfront⟩

/-- What is read is a phrase, whatever fuel there is. -/
theorem sound (tags : List String) (fuel : Nat) : Sound tags fuel := by
  induction fuel with
  | zero => exact Sound.zero
  | succ fuel ih =>
      exact ⟨ih.succ_operand, ih.succ_conjunction, ih.succ_conjunctionTail, ih.succ_disjunction,
        ih.succ_disjunctionTail⟩

/-- Tokens that are read as a constraint are a disjunction of its value. -/
theorem phrase_of_ofTokens (h : ofTokens ts = .ok c) :
    Phrase tags .disjunction ts (c.holds tags) := by
  obtain ⟨⟨inner, more⟩, hinner, hmore⟩ := bind_eq_ok.mp h
  obtain ⟨used, rfl, hused⟩ := (sound tags _).disjunction hinner
  cases more with
  | nil =>
      cases hmore
      simpa using hused
  | cons token more => cases hmore

/-! ### A phrase is read -/

/-- A row of tokens is read as a constraint of a value, whatever follows that does not go on with
it.  What follows a row of parts may begin with one more of them: the row is read then up to there,
with fuel to spare for the others.  To enter a rule takes one unit of fuel, so that a tighter level
needs one less. -/
def Read (tags : List String) : Level → List Token → Bool → Prop
  | .operand, ts, b => ∃ c : Constraint, c.holds tags = b ∧ ∀ fuel rest,
      4 * (ts.length + rest.length) ≤ fuel + 3 → takeUnary fuel (ts ++ rest) = .ok (c, rest)
  | .conjunction, ts, b => ∃ c : Constraint, c.holds tags = b ∧ ∀ fuel rest,
      4 * (ts.length + rest.length) ≤ fuel + 2 →
        ∃ spare, 4 * rest.length ≤ spare ∧ takeAnd fuel (ts ++ rest) = takeAndTail spare c rest
  | .disjunction, ts, b => ∃ c : Constraint, c.holds tags = b ∧ ∀ fuel rest,
      4 * (ts.length + rest.length) ≤ fuel + 1 → rest.head? ≠ some .and →
        ∃ spare, 4 * rest.length ≤ spare ∧ takeOr fuel (ts ++ rest) = takeOrTail spare c rest

/-- A row of parts joined by `&&` ends where no other one is joined. -/
theorem Read.takeAnd_eq (h : Read tags .conjunction ts b) :
    ∃ c : Constraint, c.holds tags = b ∧ ∀ fuel rest,
      4 * (ts.length + rest.length) ≤ fuel + 2 → rest.head? ≠ some .and →
        takeAnd fuel (ts ++ rest) = .ok (c, rest) := by
  obtain ⟨c, hc, hread⟩ := h
  refine ⟨c, hc, fun fuel rest hfuel hand => ?_⟩
  obtain ⟨spare, -, htail⟩ := hread fuel rest hfuel
  rw [htail, takeAndTail_of_head? hand]

/-- A row of parts joined by `||` ends where no other one is joined. -/
theorem Read.takeOr_eq (h : Read tags .disjunction ts b) :
    ∃ c : Constraint, c.holds tags = b ∧ ∀ fuel rest,
      4 * (ts.length + rest.length) ≤ fuel + 1 → rest.head? ≠ some .and →
        rest.head? ≠ some .or → takeOr fuel (ts ++ rest) = .ok (c, rest) := by
  obtain ⟨c, hc, hread⟩ := h
  refine ⟨c, hc, fun fuel rest hfuel hand hor => ?_⟩
  obtain ⟨spare, -, htail⟩ := hread fuel rest hfuel hand
  rw [htail, takeOrTail_of_head? hor]

theorem Read.tag (name : String) : Read tags .operand [.tag name] (decide (name ∈ tags)) := by
  refine ⟨.tag name, by simp [holds], fun fuel rest hfuel => ?_⟩
  rw [List.length_singleton] at hfuel
  cases fuel with
  | zero => omega
  | succ fuel => rfl

theorem Read.not (h : Read tags .operand ts b) : Read tags .operand (.not :: ts) (!b) := by
  obtain ⟨c, rfl, hread⟩ := h
  refine ⟨.not c, rfl, fun fuel rest hfuel => ?_⟩
  rw [List.length_cons] at hfuel
  cases fuel with
  | zero => omega
  | succ fuel => rw [List.cons_append, takeUnary, hread fuel rest (by omega), ok_bind]

theorem Read.group (h : Read tags .disjunction ts b) :
    Read tags .operand (.opening :: (ts ++ [.closing])) b := by
  obtain ⟨c, rfl, hread⟩ := h.takeOr_eq
  refine ⟨c, rfl, fun fuel rest hfuel => ?_⟩
  rw [List.length_cons, List.length_append, List.length_singleton] at hfuel
  cases fuel with
  | zero => omega
  | succ fuel =>
      have hinner : takeOr fuel (ts ++ .closing :: rest) = .ok (c, .closing :: rest) :=
        hread fuel _ (by rw [List.length_cons]; omega) (by simp) (by simp)
      rw [List.cons_append, takeUnary, List.append_assoc, List.singleton_append, hinner, ok_bind]

theorem Read.ofOperand (h : Read tags .operand ts b) (hpos : 0 < ts.length) :
    Read tags .conjunction ts b := by
  obtain ⟨c, hc, hread⟩ := h
  refine ⟨c, hc, fun fuel rest hfuel => ?_⟩
  cases fuel with
  | zero => omega
  | succ fuel =>
      refine ⟨fuel, by omega, ?_⟩
      rw [takeAnd, hread fuel rest (by omega), ok_bind]

theorem Read.and {a : Bool} (ha : Read tags .conjunction ts a) (hb : Read tags .operand us b) :
    Read tags .conjunction (ts ++ .and :: us) (a && b) := by
  obtain ⟨left, rfl, hleft⟩ := ha
  obtain ⟨right, rfl, hright⟩ := hb
  refine ⟨.and left right, rfl, fun fuel rest hfuel => ?_⟩
  rw [List.length_append, List.length_cons] at hfuel
  -- the row before is read up to the `&&`, and its part is read behind it
  obtain ⟨spare, hspare, htail⟩ := hleft fuel (.and :: (us ++ rest)) (by simp; omega)
  rw [List.length_cons, List.length_append] at hspare
  cases spare with
  | zero => omega
  | succ spare =>
      refine ⟨spare, by omega, ?_⟩
      rw [List.append_assoc, List.cons_append, htail, takeAndTail, hright spare rest (by omega),
        ok_bind]

theorem Read.ofConjunction (h : Read tags .conjunction ts b) (hpos : 0 < ts.length) :
    Read tags .disjunction ts b := by
  obtain ⟨c, hc, hread⟩ := h.takeAnd_eq
  refine ⟨c, hc, fun fuel rest hfuel hand => ?_⟩
  cases fuel with
  | zero => omega
  | succ fuel =>
      refine ⟨fuel, by omega, ?_⟩
      rw [takeOr, hread fuel rest (by omega) hand, ok_bind]

theorem Read.or {a : Bool} (ha : Read tags .disjunction ts a) (hb : Read tags .conjunction us b) :
    Read tags .disjunction (ts ++ .or :: us) (a || b) := by
  obtain ⟨left, rfl, hleft⟩ := ha
  obtain ⟨right, rfl, hright⟩ := hb.takeAnd_eq
  refine ⟨.or left right, rfl, fun fuel rest hfuel hand => ?_⟩
  rw [List.length_append, List.length_cons] at hfuel
  obtain ⟨spare, hspare, htail⟩ := hleft fuel (.or :: (us ++ rest)) (by simp; omega) (by simp)
  rw [List.length_cons, List.length_append] at hspare
  cases spare with
  | zero => omega
  | succ spare =>
      refine ⟨spare, by omega, ?_⟩
      rw [List.append_assoc, List.cons_append, htail, takeOrTail,
        hright spare rest (by omega) hand, ok_bind]

/-- A phrase is read, as a constraint of its value. -/
theorem Phrase.read (h : Phrase tags level ts b) : Read tags level ts b := by
  induction h with
  | tag name => exact Read.tag name
  | not _ ih => exact ih.not
  | group _ ih => exact ih.group
  | ofOperand h ih => exact ih.ofOperand h.length_pos
  | and _ _ iha ihb => exact iha.and ihb
  | ofConjunction h ih => exact ih.ofConjunction h.length_pos
  | or _ _ iha ihb => exact iha.or ihb

/-- A disjunction is read as a constraint of its value. -/
theorem ofTokens_of_phrase (h : Phrase tags .disjunction ts b) :
    ∃ c, ofTokens ts = .ok c ∧ c.holds tags = b := by
  obtain ⟨c, hc, hread⟩ := h.read.takeOr_eq
  have htake : takeOr (4 * ts.length + 4) ts = .ok (c, []) := by
    simpa using hread (4 * ts.length + 4) [] (by simp; omega) (by simp) (by simp)
  refine ⟨c, ?_, hc⟩
  rw [ofTokens, htake, ok_bind]

/-! ### The constraint of a text -/

theorem spelled_of_parse {text : String} (h : parse text = .ok c) :
    Spelled tags text (c.holds tags) := by
  obtain ⟨ts, htokens, hread⟩ := bind_eq_ok.mp h
  exact ⟨ts, spells_of_tokens htokens, phrase_of_ofTokens hread⟩

theorem parse_of_spelled {text : String} (h : Spelled tags text b) :
    ∃ c, parse text = .ok c ∧ c.holds tags = b := by
  obtain ⟨ts, hspells, hphrase⟩ := h
  obtain ⟨c, hread, hc⟩ := ofTokens_of_phrase hphrase
  refine ⟨c, ?_, hc⟩
  rw [parse, tokens_of_spells hspells hphrase.apart, ok_bind, hread]

/-- A text is read as a constraint of a value exactly if it spells one. -/
theorem parse_eq_ok_iff {text : String} :
    (∃ c, parse text = .ok c ∧ c.holds tags = b) ↔ Spelled tags text b := by
  refine ⟨?_, parse_of_spelled⟩
  rintro ⟨c, hparse, rfl⟩
  exact spelled_of_parse hparse

/-- A text has a fault exactly if it spells no constraint. -/
theorem parse_eq_error_iff (tags : List String) {text : String} :
    (∃ fault, parse text = .error fault) ↔ ∀ b, ¬ Spelled tags text b := by
  cases hparse : parse text with
  | ok c => exact ⟨fun ⟨_, h⟩ => (by cases h), fun h => absurd (spelled_of_parse hparse) (h _)⟩
  | error fault =>
      refine ⟨fun _ b h => ?_, fun _ => ⟨fault, rfl⟩⟩
      obtain ⟨c, hc, -⟩ := parse_of_spelled h
      rw [hparse] at hc
      cases hc

end Constraint

/-! ### The constraint of a source file -/

namespace Target
open Constraint

theorem matchesSource_eq_ok_iff {t : Target} {unit source : String} {b : Bool} :
    t.matchesSource unit source = .ok b ↔
      (lineOf source = none ∧ b = true) ∨
        ∃ line, lineOf source = some line ∧ Spelled t.tags line b := by
  rw [matchesSource]
  cases hline : lineOf source with
  | none => simp [eq_comm]
  | some line =>
      simp only [← parse_eq_ok_iff]
      cases hparse : parse line <;> simp [hparse]

theorem matchesSource_eq_error_iff {t : Target} {unit source : String} {failure : Failure} :
    t.matchesSource unit source = .error failure ↔
      ∃ line fault, lineOf source = some line ∧ parse line = .error fault ∧
        failure = .resolution (.badConstraint unit fault.message) := by
  rw [matchesSource]
  cases hline : lineOf source with
  | none => simp
  | some line => cases hparse : parse line <;> simp [hparse, eq_comm]

end Target

/-- A text is read as a constraint, which has the value that the text spells, or else it spells
none and has a fault.  A source file without a constraint matches; with one, it matches as its
constraint does, and is refused for the fault of it and nothing else. -/
theorem Constraint.reads_exactly_spelled (tags : List String) (text : String) (t : Target)
    (unit source : String) :
    (∀ b, (∃ c, parse text = .ok c ∧ c.holds tags = b) ↔ Spelled tags text b) ∧
    ((∃ fault, parse text = .error fault) ↔ ∀ b, ¬ Spelled tags text b) ∧
    (∀ b, t.matchesSource unit source = .ok b ↔
      (lineOf source = none ∧ b = true) ∨
        ∃ line, lineOf source = some line ∧ Spelled t.tags line b) ∧
    (∀ failure, t.matchesSource unit source = .error failure ↔
      ∃ line fault, lineOf source = some line ∧ parse line = .error fault ∧
        failure = .resolution (.badConstraint unit fault.message)) :=
  ⟨fun _ => parse_eq_ok_iff, parse_eq_error_iff tags, fun _ => Target.matchesSource_eq_ok_iff,
    fun _ => Target.matchesSource_eq_error_iff⟩

/-- A part that decides nothing has its faults, too. -/
example : Constraint.parse "linux || (" = .error .unexpectedEnd := by decide +kernel

end EnumHelpers
