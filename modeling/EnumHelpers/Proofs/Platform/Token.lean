import EnumHelpers.Platform.Constraint
import EnumHelpers.Proofs.Outcome
import EnumHelpers.Proofs.Text.Lines
import Mathlib.Data.List.Chain

/-!
# Proofs — tokens of a constraint

A text spells tokens when they stand in it one after another, with blanks or nothing between them
(`Spells`).  One text may spell several rows of tokens, as a word is a tag, or two.  Of these only
one has no two tags side by side, and it is the row that the text is cut into.

* `spells_of_tokens`: a text spells the tokens that it is cut into.
* `tokens_of_spells`: a text that spells tokens with no two tags side by side is cut into them.
-/

namespace EnumHelpers.Constraint
open Text

/-! ### Characters of tags -/

/-- No character of a tag is blank. -/
theorem isBlank_of_isTagChar {c : Char} (h : isTagChar c = true) : isBlank c = false :=
  isBlank_eq_false_of (by decide +kernel) h

/-! ### Spelling -/

/-- A token is one that can be written: a tag has one character or more, all of them characters of
tags. -/
def Token.Writable : Token → Prop
  | .tag name => name.toList ≠ [] ∧ ∀ c ∈ name.toList, isTagChar c = true
  | _ => True

/-- A text spells tokens, with blanks or nothing around each of them. -/
inductive Spells : List Char → List Token → Prop
  | nil {blanks : List Char} (hb : ∀ c ∈ blanks, isBlank c = true) : Spells blanks []
  | cons {blanks rest : List Char} {token : Token} {more : List Token}
      (hb : ∀ c ∈ blanks, isBlank c = true) (ht : token.Writable) (h : Spells rest more) :
      Spells (blanks ++ (token.text.toList ++ rest)) (token :: more)

/-- A token is a tag. -/
def Token.IsTag : Token → Prop
  | .tag _ => True
  | _ => False

/-- No two tags stand side by side. -/
def Apart : List Token → Prop := List.IsChain fun a b => a.IsTag → ¬ b.IsTag

variable {cs rest : List Char} {token : Token} {ts : List Token}

/-- A token begins and ends with characters that are not blank. -/
theorem Token.Writable.solid (h : token.Writable) :
    token.text.toList ≠ [] ∧ ∀ c ∈ token.text.toList, isBlank c = false := by
  cases token with
  | tag name => exact ⟨h.1, fun c hc => isBlank_of_isTagChar (h.2 c hc)⟩
  | _ => simp [Token.text, isBlank]

theorem Spells.append_blanks {blanks : List Char} (h : Spells cs ts)
    (hb : ∀ c ∈ blanks, isBlank c = true) : Spells (cs ++ blanks) ts := by
  induction h with
  | nil hb' =>
      refine .nil fun c hc => ?_
      exact (List.mem_append.mp hc).elim (hb' c) (hb c)
  | cons hb' ht _ ih =>
      rw [List.append_assoc, List.append_assoc]
      exact .cons hb' ht ih

/-- A text that begins with a character of a tag spells a tag first. -/
theorem Spells.isTag_of_head? {c : Char} (h : Spells cs ts) (hc : cs.head? = some c)
    (htag : isTagChar c = true) : ∃ token more, ts = token :: more ∧ token.IsTag := by
  have hnot : isBlank c ≠ true := Bool.eq_false_iff.mp (isBlank_of_isTagChar htag)
  cases h with
  | nil hb => exact absurd (hb c (List.mem_of_head? hc)) hnot
  | @cons blanks rest token more hb ht _ =>
      refine ⟨token, more, rfl, ?_⟩
      cases blanks with
      | cons b blanks =>
          rw [List.cons_append, List.head?_cons, Option.some.injEq] at hc
          exact absurd (hc ▸ hb b List.mem_cons_self) hnot
      | nil =>
          cases token with
          | tag name => trivial
          | _ =>
              simp [Token.text] at hc
              subst hc
              exact absurd htag (by decide)

/-! ### The token in front -/

theorem frontToken?_of_isTagChar {c : Char} (h : isTagChar c = true) (cs : List Char) :
    frontToken? (c :: cs) =
      some (.tag (String.ofList ((c :: cs).takeWhile isTagChar)),
        ((c :: cs).takeWhile isTagChar).length) := by
  have hne : ∀ d, isTagChar d = false → c ≠ d := by
    rintro d hd rfl
    rw [h] at hd
    cases hd
  rw [frontToken?]
  · simp [h]
  · exact fun _ e => hne '(' (by decide) (List.cons.inj e).1
  · exact fun _ e => hne ')' (by decide) (List.cons.inj e).1
  · exact fun _ e => hne '!' (by decide) (List.cons.inj e).1
  · exact fun _ e => hne '&' (by decide) (List.cons.inj e).1
  · exact fun _ e => hne '|' (by decide) (List.cons.inj e).1

/-- A token is found in front of what follows, if a tag does not go on there. -/
theorem frontToken?_text (ht : token.Writable)
    (hrest : token.IsTag → ∀ c, rest.head? = some c → isTagChar c = false) :
    frontToken? (token.text.toList ++ rest) = some (token, token.text.toList.length) := by
  cases token with
  | tag name =>
      have hstop : rest.takeWhile isTagChar = [] := by
        cases rest with
        | nil => rfl
        | cons c rest => simp [hrest trivial c rfl]
      have htake : (name.toList ++ rest).takeWhile isTagChar = name.toList := by
        rw [List.takeWhile_append_of_pos ht.2, hstop, List.append_nil]
      cases hname : name.toList with
      | nil => exact absurd hname ht.1
      | cons c cs =>
          have hc : isTagChar c = true := ht.2 c (by simp [hname])
          rw [Token.text, hname, List.cons_append, frontToken?_of_isTagChar hc, ← List.cons_append,
            ← hname, htake, String.ofList_toList]
  | _ => rfl

/-- The token that is found in front of a text stands there. -/
theorem of_frontToken? {length : Nat} (h : frontToken? cs = some (token, length)) :
    token.Writable ∧ length = token.text.toList.length ∧
      ∃ rest, cs = token.text.toList ++ rest := by
  rw [frontToken?.eq_def] at h
  split at h
  case h_6 =>
    dsimp only at h
    split at h
    · cases h
    · rename_i hne
      cases h
      rw [Token.text, String.toList_ofList]
      refine ⟨⟨?_, ?_⟩, rfl, _, List.takeWhile_append_dropWhile.symm⟩
      · simpa using hne
      · rw [String.toList_ofList]
        exact fun c hc => List.mem_takeWhile_imp hc
  all_goals
    cases h
    exact ⟨trivial, rfl, _, rfl⟩

/-! ### Cutting a text into tokens -/

theorem tokensFrom_succ {fuel : Nat} (hne : cs ≠ []) :
    tokensFrom (fuel + 1) cs =
      match frontToken? (cs.dropWhile isBlank) with
      | some (token, length) => do
        let more ← tokensFrom fuel ((cs.dropWhile isBlank).drop length)
        .ok (token :: more)
      | none => .error (.unexpectedCharacter (String.ofList cs)) := by
  cases cs with
  | nil => exact absurd rfl hne
  | cons c cs => rfl

theorem spells_of_tokensFrom {fuel : Nat} (hfuel : cs.length ≤ fuel)
    (h : tokensFrom fuel cs = .ok ts) : Spells cs ts := by
  induction fuel generalizing cs ts with
  | zero =>
      obtain rfl := List.length_eq_zero_iff.mp (Nat.le_zero.mp hfuel)
      cases h
      exact .nil (by simp)
  | succ fuel ih =>
      by_cases hne : cs = []
      · subst hne
        cases h
        exact .nil (by simp)
      · rw [tokensFrom_succ hne] at h
        split at h
        · rename_i token length hfront
          obtain ⟨more, hmore, h⟩ := bind_eq_ok.mp h
          cases h
          obtain ⟨hw, rfl, rest, hbody⟩ := of_frontToken? hfront
          rw [hbody, List.drop_left] at hmore
          have hcs : cs.takeWhile isBlank ++ (token.text.toList ++ rest) = cs := by
            rw [← hbody, List.takeWhile_append_dropWhile]
          have hlength := congrArg List.length hcs
          have htoken := List.length_pos_of_ne_nil hw.solid.1
          simp only [List.length_append] at hlength
          rw [← hcs]
          exact .cons (fun c hc => List.mem_takeWhile_imp hc) hw (ih (by omega) hmore)
        · cases h

/-- The blanks at the end are those behind the last token. -/
theorem Token.Writable.trimEndChars_append (ht : token.Writable) (cs rest : List Char) :
    trimEndChars (cs ++ (token.text.toList ++ rest)) =
      cs ++ (token.text.toList ++ trimEndChars rest) := by
  obtain ⟨hne, hsolid⟩ := ht.solid
  have hlast := List.getLast?_eq_some_getLast hne
  have hblank := hsolid _ (List.getLast_mem hne)
  rw [← List.append_assoc, trimEndChars_append_of_getLast? rest _ hblank, List.append_assoc]
  rw [List.getLast?_append, hlast, Option.some_or]

/-- The blanks in front are those before the first token. -/
theorem Token.Writable.dropWhile_append {blanks : List Char} (ht : token.Writable)
    (hb : ∀ c ∈ blanks, isBlank c = true) (rest : List Char) :
    (blanks ++ (token.text.toList ++ rest)).dropWhile isBlank = token.text.toList ++ rest := by
  obtain ⟨hne, hsolid⟩ := ht.solid
  rw [List.dropWhile_append_of_pos hb]
  cases htext : token.text.toList with
  | nil => exact absurd htext hne
  | cons c text =>
      have hc : isBlank c = false := hsolid c (htext ▸ List.mem_cons_self)
      exact List.dropWhile_cons_of_neg (Bool.eq_false_iff.mp hc)

/-- Behind a tag no character of a tag follows, as no tag does. -/
theorem Apart.isTagChar_of_head? {c : Char} (hapart : Apart (token :: ts)) (h : Spells cs ts)
    (htag : token.IsTag) (hc : (trimEndChars cs).head? = some c) : isTagChar c = false := by
  by_contra hnot
  obtain ⟨blanks, hblanks, -⟩ := exists_trimEndChars_append cs
  have hhead : cs.head? = some c := by
    rw [← hblanks, List.head?_append, hc, Option.some_or]
  obtain ⟨next, more, rfl, hnext⟩ := h.isTag_of_head? hhead (Bool.not_eq_false _ ▸ hnot)
  exact (List.isChain_cons.mp hapart).1 next rfl htag hnext

theorem tokensFrom_of_spells {fuel : Nat} (h : Spells cs ts) (hapart : Apart ts)
    (hfuel : (trimEndChars cs).length ≤ fuel) : tokensFrom fuel (trimEndChars cs) = .ok ts := by
  induction h generalizing fuel with
  | @nil blanks hb =>
      rw [trimEndChars_eq_nil.mpr hb]
      cases fuel <;> rfl
  | @cons blanks rest token more hb ht hrest ih =>
      rw [ht.trimEndChars_append] at hfuel ⊢
      have hne := ht.solid.1
      have hlength := List.length_pos_of_ne_nil hne
      simp only [List.length_append] at hfuel
      cases fuel with
      | zero => omega
      | succ fuel =>
          have hmore : tokensFrom fuel (trimEndChars rest) = .ok more :=
            ih (List.isChain_cons.mp hapart).2 (by omega)
          have hfront := frontToken?_text ht fun htag _ => hapart.isTagChar_of_head? hrest htag
          rw [tokensFrom_succ (by simp [hne]), ht.dropWhile_append hb, hfront]
          simp only [List.drop_left, hmore, ok_bind]

/-- A text spells the tokens that it is cut into. -/
theorem spells_of_tokens {text : String} (h : tokens text = .ok ts) : Spells text.toList ts := by
  obtain ⟨blanks, hblanks, hb⟩ := exists_trimEndChars_append text.toList
  rw [← hblanks]
  exact (spells_of_tokensFrom (Nat.le_refl _) h).append_blanks hb

/-- A text that spells tokens with no two tags side by side is cut into them. -/
theorem tokens_of_spells {text : String} (h : Spells text.toList ts) (hapart : Apart ts) :
    tokens text = .ok ts :=
  tokensFrom_of_spells h hapart (Nat.le_refl _)

end EnumHelpers.Constraint
