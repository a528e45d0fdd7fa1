import EnumHelpers.Json.Reader
import EnumHelpers.Proofs.Outcome
import Mathlib.Data.Bool.AllAny
import Mathlib.Data.List.TakeDrop
import Mathlib.Data.List.TakeWhile
import Mathlib.Tactic.SplitIfs

/-!
# Proofs — the grammar of JSON documents

What the values of a JSON document are made of, as sets of texts: white space, numbers, texts in
quotes and single words.  The grammar has no values in it, only their forms.  An integer of it has
no more digits than may be read, and one with more is told apart (`LongInteger`).

Each scanner of the reader finds the part of the grammar at the front of a text: what it takes is
such a part (`sound_readScalar`, `textBody_of_readText`), and where one stands that nothing
continues, it takes it (`readScalar_scalar`, `readText_textBody`).
-/

namespace EnumHelpers.Json
open Number

variable {cs ds rest : List Char}

/-! ### White space -/

/-- The characters of white space. -/
def isSpace (c : Char) : Bool := c == ' ' || c == '\t' || c == '\n' || c == '\r'

theorem mem_of_isSpace {c : Char} (h : isSpace c = true) : c ∈ [' ', '\t', '\n', '\r'] := by
  simpa [isSpace, or_assoc] using h

/-- A text of white space. -/
def Space (cs : List Char) : Prop := ∀ c ∈ cs, isSpace c = true

theorem exists_skipSpace (cs : List Char) : ∃ ws, cs = ws ++ skipSpace cs ∧ Space ws :=
  ⟨cs.takeWhile isSpace, List.takeWhile_append_dropWhile.symm,
    fun _ hc => List.mem_takeWhile_imp hc⟩

theorem skipSpace_append {ws : List Char} (hws : Space ws)
    (hcs : ∀ c, cs.head? = some c → isSpace c = false) : skipSpace (ws ++ cs) = cs := by
  have hkeep : cs.dropWhile isSpace = cs := by
    cases cs with
    | nil => rfl
    | cons c rest => exact List.dropWhile_cons_of_neg (by simp [hcs c rfl])
  exact (List.dropWhile_append_of_pos hws).trans hkeep

/-! ### Digits -/

/-- A decimal digit as numbers are written with. -/
def isFigure (c : Char) : Bool := '0' ≤ c && c ≤ '9'

/-- One digit or more. -/
structure Figures (ds : List Char) : Prop where
  ne_nil : ds ≠ []
  all : ∀ c ∈ ds, isFigure c = true

/-- A text that begins with no digit. -/
def NoFigure (cs : List Char) : Prop := ∀ c, cs.head? = some c → isFigure c = false

theorem spanDigits_eq (cs : List Char) :
    spanDigits cs = (cs.takeWhile isFigure, cs.dropWhile isFigure) :=
  List.span_eq_takeWhile_dropWhile _ cs

theorem noFigure_dropWhile (cs : List Char) : NoFigure (cs.dropWhile isFigure) := by
  intro c hc
  have hhead := List.head?_dropWhile_not isFigure cs
  rwa [hc] at hhead

theorem noFigure_cons {c : Char} (h : isFigure c = false) : NoFigure (c :: cs) := by
  rintro _ ⟨⟩
  exact h

theorem spanDigits_append (h : Figures ds) (hrest : NoFigure rest) :
    spanDigits (ds ++ rest) = (ds, rest) := by
  have hkeep : rest.dropWhile isFigure = rest ∧ rest.takeWhile isFigure = [] := by
    cases rest with
    | nil => exact ⟨rfl, rfl⟩
    | cons c rest =>
        have hc : ¬ isFigure c = true := by simp [hrest c rfl]
        exact ⟨List.dropWhile_cons_of_neg hc, List.takeWhile_cons_of_neg hc⟩
  rw [spanDigits_eq, List.takeWhile_append_of_pos h.all, List.dropWhile_append_of_pos h.all,
    hkeep.1, hkeep.2, List.append_nil]

/-- The scanners of digits: what they make of one digit or more at the front of a text. -/
def scanFigures {α : Type} (f : List Char → α) (cs : List Char) : Option (α × List Char) :=
  let (digits, after) := spanDigits cs
  if digits.isEmpty then none else some (f digits, after)

variable {α : Type} {f : List Char → α}

theorem scanFigures_append (h : Figures ds) (hrest : NoFigure rest) :
    scanFigures f (ds ++ rest) = some (f ds, rest) := by
  have hempty : ds.isEmpty = false := by simpa using h.ne_nil
  rw [scanFigures, spanDigits_append h hrest]
  simp [hempty]

theorem scanFigures_ne_none (h : Figures ds) (more : List Char) :
    scanFigures f (ds ++ more) ≠ none := by
  obtain ⟨c, ds, rfl⟩ := List.exists_cons_of_ne_nil h.ne_nil
  have hc : isFigure c = true := h.all c List.mem_cons_self
  rw [scanFigures, spanDigits_eq]
  simp [hc]

theorem figures_of_scanFigures {a : α} (h : scanFigures f cs = some (a, rest)) :
    ∃ ds, cs = ds ++ rest ∧ Figures ds ∧ NoFigure rest ∧ a = f ds := by
  rw [scanFigures, spanDigits_eq] at h
  dsimp only at h
  split_ifs at h with hempty
  obtain ⟨rfl, rfl⟩ := Prod.mk.inj (Option.some.inj h)
  exact ⟨_, List.takeWhile_append_dropWhile.symm,
    ⟨by simpa using hempty, fun _ hc => List.mem_takeWhile_imp hc⟩, noFigure_dropWhile cs, rfl⟩

/-! ### Numbers -/

/-- The digits of a whole number: a zero stands alone. -/
inductive Whole : List Char → Prop where
  | zero : Whole ['0']
  | figures {c : Char} {ds : List Char} : c ≠ '0' → Figures (c :: ds) → Whole (c :: ds)

theorem wholeDigits?_append {w : List Char} (h : Whole w) (hrest : w = ['0'] ∨ NoFigure rest) :
    wholeDigits? (w ++ rest) = some (w, rest) := by
  cases h with
  | zero => rfl
  | figures hc hds =>
      have hrest : NoFigure rest := hrest.resolve_left fun he => hc (List.cons.inj he).1
      rw [List.cons_append, wholeDigits?]
      · exact scanFigures_append (f := id) hds hrest
      · exact fun _ he => hc (List.cons.inj he).1

theorem whole_of_wholeDigits? {w : List Char} (h : wholeDigits? cs = some (w, rest)) :
    cs = w ++ rest ∧ Whole w ∧ (w = ['0'] ∨ NoFigure rest) := by
  unfold wholeDigits? at h
  split at h
  · cases h
    exact ⟨rfl, .zero, .inl rfl⟩
  · rename_i hzero
    obtain ⟨ds, rfl, hds, hrest, rfl⟩ := figures_of_scanFigures (f := id) h
    refine ⟨rfl, ?_, .inr hrest⟩
    obtain ⟨c, ds, rfl⟩ := List.exists_cons_of_ne_nil hds.ne_nil
    refine .figures ?_ hds
    rintro rfl
    exact hzero _ rfl

/-- An exponent: its letter, a sign or none, and digits. -/
inductive Exponent : List Char → Prop where
  | mk {letter : Char} {sign ds : List Char} : letter = 'e' ∨ letter = 'E' →
      sign ∈ [[], ['+'], ['-']] → Figures ds → Exponent (letter :: (sign ++ ds))

/-- What makes a number no integer: a fraction, an exponent or both. -/
inductive Decimals : List Char → Prop where
  | fraction {ds : List Char} : Figures ds → Decimals ('.' :: ds)
  | exponent {e : List Char} : Exponent e → Decimals e
  | both {ds e : List Char} : Figures ds → Exponent e → Decimals ('.' :: (ds ++ e))

theorem fractionDigits?_cons (cs : List Char) :
    fractionDigits? ('.' :: cs) = scanFigures id cs := rfl

theorem fractionDigits?_append (h : Figures ds) (hrest : NoFigure rest) :
    fractionDigits? ('.' :: (ds ++ rest)) = some (ds, rest) := by
  rw [fractionDigits?_cons, scanFigures_append h hrest, id]

theorem figures_of_fractionDigits? (h : fractionDigits? cs = some (ds, rest)) :
    cs = '.' :: (ds ++ rest) ∧ Figures ds ∧ NoFigure rest := by
  unfold fractionDigits? at h
  split at h
  · obtain ⟨ds, rfl, hds, hrest, rfl⟩ := figures_of_scanFigures (f := id) h
    exact ⟨rfl, hds, hrest⟩
  · cases h

/-- Whether the digits of an exponent stand behind a minus, and the text behind their sign. -/
def signOf : List Char → Bool × List Char
  | '-' :: body => (true, body)
  | '+' :: body => (false, body)
  | body => (false, body)

theorem signOf_cases (cs : List Char) :
    ∃ sign ∈ [[], ['+'], ['-']], cs = sign ++ (signOf cs).2 := by
  unfold signOf
  split
  · exact ⟨['-'], by simp, rfl⟩
  · exact ⟨['+'], by simp, rfl⟩
  · exact ⟨[], by simp, rfl⟩

theorem signOf_append {sign : List Char} (hsign : sign ∈ [[], ['+'], ['-']]) (h : Figures ds) :
    (signOf (sign ++ (ds ++ rest))).2 = ds ++ rest := by
  simp only [List.mem_cons, List.not_mem_nil, or_false] at hsign
  rcases hsign with rfl | rfl | rfl
  · obtain ⟨c, ds, rfl⟩ := List.exists_cons_of_ne_nil h.ne_nil
    have hc : isFigure c = true := h.all c List.mem_cons_self
    rw [List.nil_append, List.cons_append, signOf]
    · rintro body he
      rw [(List.cons.inj he).1] at hc
      cases hc
    · rintro body he
      rw [(List.cons.inj he).1] at hc
      cases hc
  · rfl
  · rfl

theorem exponent?_cons {letter : Char} (h : letter = 'e' ∨ letter = 'E') (body : List Char) :
    ∃ f : List Char → Int, exponent? (letter :: body) = scanFigures f (signOf body).2 := by
  refine ⟨fun digits =>
    let n : Int := ofDigits 10 0 (digits.filterMap (digitIn? 10))
    if (signOf body).1 then -n else n, ?_⟩
  unfold exponent? signOf
  exact if_pos h

theorem exponent?_append {e : List Char} (h : Exponent e) (hrest : NoFigure rest) :
    ∃ n, exponent? (e ++ rest) = some (n, rest) := by
  cases h with
  | @mk letter sign ds hletter hsign hds =>
      obtain ⟨f, hf⟩ := exponent?_cons hletter (sign ++ (ds ++ rest))
      rw [signOf_append hsign hds, scanFigures_append hds hrest] at hf
      exact ⟨_, by rw [List.cons_append, List.append_assoc, hf]⟩

theorem exponent_of_exponent? {n : Int} (h : exponent? cs = some (n, rest)) :
    ∃ e, cs = e ++ rest ∧ Exponent e := by
  cases cs with
  | nil => cases h
  | cons letter body =>
      by_cases hletter : letter = 'e' ∨ letter = 'E'
      · obtain ⟨f, hf⟩ := exponent?_cons hletter body
        obtain ⟨sign, hsign, hbody⟩ := signOf_cases body
        obtain ⟨ds, hds, hfigures, -, -⟩ := figures_of_scanFigures (hf.symm.trans h)
        exact ⟨letter :: (sign ++ ds), by rw [hbody, hds]; simp, .mk hletter hsign hfigures⟩
      · unfold exponent? at h
        exact absurd (h.symm.trans (if_neg hletter)) nofun

/-- A text that goes on with the digits, the fraction or the exponent of a number before it. -/
def Continues (cs : List Char) : Prop := ∃ front, front <+: cs ∧ (Figures front ∨ Decimals front)

theorem not_continues_iff : ¬ Continues cs ↔
    NoFigure cs ∧ fractionDigits? cs = none ∧ exponent? cs = none := by
  constructor
  · intro h
    refine ⟨fun c hc => ?_, ?_, ?_⟩
    · by_contra hfigure
      rw [Bool.not_eq_false] at hfigure
      obtain ⟨rest, rfl⟩ := List.head?_eq_some_iff.mp hc
      exact h ⟨[c], ⟨rest, rfl⟩, .inl ⟨List.cons_ne_nil _ _, by simpa using hfigure⟩⟩
    · refine Option.eq_none_iff_forall_ne_some.mpr fun found hfound => h ?_
      obtain ⟨rfl, hds, -⟩ := figures_of_fractionDigits? hfound
      exact ⟨_, ⟨found.2, rfl⟩, .inr (.fraction hds)⟩
    · refine Option.eq_none_iff_forall_ne_some.mpr fun found hfound => h ?_
      obtain ⟨e, rfl, he⟩ := exponent_of_exponent? hfound
      exact ⟨e, List.prefix_append _ _, .inr (.exponent he)⟩
  · rintro ⟨hfigure, hfraction, hexponent⟩ ⟨front, ⟨more, rfl⟩, hds | hdecimals⟩
    · obtain ⟨c, ds, rfl⟩ := List.exists_cons_of_ne_nil hds.ne_nil
      have hc := hfigure c rfl
      rw [hds.all c List.mem_cons_self] at hc
      cases hc
    · cases hdecimals with
      | fraction hds =>
          rw [List.cons_append, fractionDigits?_cons] at hfraction
          exact scanFigures_ne_none hds more hfraction
      | exponent he =>
          cases he with
          | @mk letter sign ds hletter hsign hds =>
              obtain ⟨f, hf⟩ := exponent?_cons hletter (sign ++ (ds ++ more))
              rw [signOf_append hsign hds] at hf
              rw [List.cons_append, List.append_assoc, hf] at hexponent
              exact scanFigures_ne_none hds more hexponent
      | @both ds e hds he =>
          rw [List.cons_append, List.append_assoc, fractionDigits?_cons] at hfraction
          exact scanFigures_ne_none hds (e ++ more) hfraction

/-- A number without its sign.  Only an integer is bounded in its digits. -/
inductive Unsigned : List Char → Prop where
  | whole {w : List Char} : Whole w → w.length ≤ digitLimit → Unsigned w
  | decimal {w d : List Char} : Whole w → Decimals d → Unsigned (w ++ d)

/-- The digits of an integer that are too many to be read. -/
structure Overlong (w : List Char) : Prop where
  whole : Whole w
  long : digitLimit < w.length

/-- What may stand behind a value: nothing, white space, a comma or a closing bracket. -/
def Ends (cs : List Char) : Prop :=
  ∀ c, cs.head? = some c → isSpace c = true ∨ c ∈ [',', ']', '\x7d']

theorem noFigure_of_exponent {e : List Char} (h : Exponent e) (rest : List Char) :
    NoFigure (e ++ rest) ∧ fractionDigits? (e ++ rest) = none := by
  cases h with
  | mk hletter hsign hds =>
      rcases hletter with rfl | rfl
      all_goals exact ⟨noFigure_cons (by decide), rfl⟩

/-- What can go on a number begins with a digit, a point or a letter. -/
theorem head_of_continuing {front : List Char} (h : Figures front ∨ Decimals front) :
    ∃ c cs, front = c :: cs ∧ (isFigure c = true ∨ c ∈ ['.', 'e', 'E']) := by
  rcases h with hds | hdecimals
  · obtain ⟨c, ds, rfl⟩ := List.exists_cons_of_ne_nil hds.ne_nil
    exact ⟨c, ds, rfl, .inl (hds.all c List.mem_cons_self)⟩
  · cases hdecimals with
    | fraction => exact ⟨_, _, rfl, .inr (by simp)⟩
    | both => exact ⟨_, _, rfl, .inr (by simp)⟩
    | exponent he =>
        cases he with
        | mk hletter => exact ⟨_, _, rfl, .inr (by simp [hletter])⟩

theorem Ends.not_continues (h : Ends cs) : ¬ Continues cs := by
  rintro ⟨front, ⟨more, rfl⟩, hfront⟩
  obtain ⟨c, front, rfl, hc⟩ := head_of_continuing hfront
  have hmarks : ∀ c ∈ [' ', '\t', '\n', '\r'] ++ [',', ']', '\x7d'],
      ¬ (isFigure c = true ∨ c ∈ ['.', 'e', 'E']) := List.all_iff_forall_prop.mp (by decide)
  refine hmarks c (List.mem_append.mpr ?_) hc
  exact (h c rfl).imp mem_of_isSpace id

/-- Digits that nothing continues are read as an integer, unless they are too many. -/
theorem readNumber_whole {w : List Char} (hw : Whole w) (hrest : w = ['0'] ∨ NoFigure rest)
    (hfraction : fractionDigits? rest = none) (hexponent : exponent? rest = none)
    (limit : Option Nat) (negative : Bool) :
    readNumber limit negative (w ++ rest) =
      if limit.any (· < w.length) then .error (.integer (.tooManyDigits w.length))
      else
        let n := ofDigits 10 0 (w.filterMap (digitIn? 10))
        .ok (.int (if negative then -(n : Int) else n), rest) := by
  rw [readNumber, wholeDigits?_append hw hrest]
  dsimp only
  rw [hfraction, hexponent]

theorem readNumber_unsigned {n : List Char} (h : Unsigned n) (hrest : Ends rest)
    (negative : Bool) :
    ∃ v, readNumber (some digitLimit) negative (n ++ rest) = .ok (v, rest) := by
  obtain ⟨hfigure, hfraction, hexponent⟩ := not_continues_iff.mp hrest.not_continues
  cases h with
  | whole hw hlength =>
      rw [readNumber_whole hw (.inr hfigure) hfraction hexponent,
        if_neg (by simpa using hlength)]
      exact ⟨_, rfl⟩
  | decimal hw hd =>
      rw [List.append_assoc, readNumber]
      cases hd with
      | fraction hds =>
          rw [List.cons_append, wholeDigits?_append hw (.inr (noFigure_cons (by decide)))]
          dsimp only
          rw [fractionDigits?_append hds hfigure]
          dsimp only
          rw [hexponent]
          exact ⟨_, rfl⟩
      | @exponent e he =>
          obtain ⟨hnone, hfraction⟩ := noFigure_of_exponent he rest
          obtain ⟨k, hk⟩ := exponent?_append he hfigure
          rw [wholeDigits?_append hw (.inr hnone)]
          dsimp only
          rw [hfraction, hk]
          exact ⟨_, rfl⟩
      | @both ds e hds he =>
          obtain ⟨hnone, -⟩ := noFigure_of_exponent he rest
          obtain ⟨k, hk⟩ := exponent?_append he hfigure
          rw [List.cons_append, List.append_assoc,
            wholeDigits?_append hw (.inr (noFigure_cons (by decide)))]
          dsimp only
          rw [fractionDigits?_append hds hnone]
          dsimp only
          rw [hk]
          exact ⟨_, rfl⟩

theorem readNumber_overlong {w : List Char} (h : Overlong w) (hrest : ¬ Continues rest)
    (negative : Bool) :
    readNumber (some digitLimit) negative (w ++ rest) =
      .error (.integer (.tooManyDigits w.length)) := by
  obtain ⟨hfigure, hfraction, hexponent⟩ := not_continues_iff.mp hrest
  rw [readNumber_whole h.whole (.inr hfigure) hfraction hexponent, if_pos (by simpa using h.long)]

/-! ### Texts -/

/-- Four hexadecimal digits. -/
structure FourHex (hex : List Char) : Prop where
  length : hex.length = 4
  all : ∀ c ∈ hex, (digitIn? 16 c).isSome = true

theorem fourHex?_append {hex : List Char} (h : FourHex hex) (rest : List Char) :
    ∃ n, fourHex? (hex ++ rest) = some (n, rest) := by
  obtain ⟨hlength, hall⟩ := h
  match hex, hlength with
  | [a, b, c, d], _ =>
      simp only [List.forall_mem_cons, Option.isSome_iff_exists] at hall
      obtain ⟨⟨x, hx⟩, ⟨y, hy⟩, ⟨z, hz⟩, ⟨w, hw⟩, -⟩ := hall
      exact ⟨_, by simp [fourHex?, hx, hy, hz, hw]; rfl⟩

theorem fourHex_of_fourHex? {n : Nat} (h : fourHex? cs = some (n, rest)) :
    ∃ hex, cs = hex ++ rest ∧ FourHex hex := by
  unfold fourHex? at h
  split at h
  · rename_i a b c d after
    simp only [Option.bind_eq_bind, Option.bind_eq_some_iff] at h
    obtain ⟨x, hx, y, hy, z, hz, w, hw, h⟩ := h
    obtain ⟨-, rfl⟩ := Prod.mk.inj (Option.some.inj h)
    exact ⟨[a, b, c, d], rfl, rfl, by simp [hx, hy, hz, hw]⟩
  · cases h

/-- What stands between the quotes of a text. -/
inductive TextBody : List Char → Prop where
  | nil : TextBody []
  | plain {c : Char} {cs : List Char} : c ≠ '"' → c ≠ '\\' → 0x20 ≤ c.toNat → TextBody cs →
      TextBody (c :: cs)
  | short {c : Char} {cs : List Char} : (shortEscape? c).isSome = true → TextBody cs →
      TextBody ('\\' :: c :: cs)
  | unit {hex cs : List Char} : FourHex hex → TextBody cs →
      TextBody ('\\' :: 'u' :: (hex ++ cs))

/-- Behind a code unit stands what stood there, unless its second half is taken with it. -/
theorem unitChar_cases (n : Nat) (rest : List Char) : (unitChar n rest).2 = rest ∨
    ∃ hex, FourHex hex ∧ rest = '\\' :: 'u' :: (hex ++ (unitChar n rest).2) := by
  unfold unitChar
  split_ifs
  · split
    · rename_i low after hlow
      unfold lowSurrogate? at hlow
      split at hlow
      · split at hlow
        · rename_i hhex
          split_ifs at hlow
          obtain ⟨hex, rfl, h⟩ := fourHex_of_fourHex? hhex
          obtain ⟨-, rfl⟩ := Prod.mk.inj (Option.some.inj hlow)
          exact .inr ⟨hex, h, rfl⟩
        · cases hlow
      · cases hlow
    · exact .inl rfl
  · exact .inl rfl
  · exact .inl rfl

theorem textBody_of_readChars {fuel : Nat} {acc chars : List Char}
    (h : readChars fuel acc cs = .ok (chars, rest)) :
    ∃ body, cs = body ++ '"' :: rest ∧ TextBody body := by
  fun_induction readChars fuel acc cs with
  | case1 | case2 | case5 | case7 => cases h
  | case3 =>
      obtain ⟨-, rfl⟩ := Prod.mk.inj (Except.ok.inj h)
      exact ⟨[], rfl, .nil⟩
  | case4 fuel acc cs n after hfound c after' hunit ih =>
      obtain ⟨body, rfl, hbody⟩ := ih h
      obtain ⟨hex, rfl, hhex⟩ := fourHex_of_fourHex? hfound
      rcases unitChar_cases n after with hrest | ⟨hex', hhex', hrest⟩
      · rw [hunit] at hrest
        subst hrest
        exact ⟨'\\' :: 'u' :: (hex ++ body), by simp, .unit hhex hbody⟩
      · rw [hunit] at hrest
        subst hrest
        exact ⟨'\\' :: 'u' :: (hex ++ '\\' :: 'u' :: (hex' ++ body)), by simp,
          .unit hhex (.unit hhex' hbody)⟩
  | case6 fuel acc c cs hu e he ih =>
      obtain ⟨body, rfl, hbody⟩ := ih h
      exact ⟨'\\' :: c :: body, rfl, .short (by simp [he]) hbody⟩
  | case8 => cases h
  | case9 fuel acc c cs hquote _ _ hplain ih =>
      obtain ⟨body, rfl, hbody⟩ := ih h
      obtain ⟨hescape, hlow⟩ := not_or.mp hplain
      exact ⟨c :: body, rfl, .plain hquote hescape (Nat.le_of_not_lt hlow) hbody⟩

/-- A code unit in a text has the rest of the text behind it. -/
theorem TextBody.behind_unit {body hex after : List Char} (h : TextBody body) (hhex : FourHex hex)
    (heq : body ++ '"' :: rest = '\\' :: 'u' :: (hex ++ after)) :
    ∃ more, after = more ++ '"' :: rest ∧ TextBody more ∧ more.length < body.length := by
  cases h with
  | nil => cases heq
  | plain _ hescape => exact absurd (List.cons.inj heq).1 hescape
  | short hshort =>
      rw [(List.cons.inj (List.cons.inj heq).2).1] at hshort
      cases hshort
  | @unit hex' more hhex' hmore =>
      have htail : hex' ++ (more ++ '"' :: rest) = hex ++ after := by
        simpa using (List.cons.inj (List.cons.inj heq).2).2
      obtain ⟨-, rfl⟩ := List.append_inj htail (hhex'.length.trans hhex.length.symm)
      refine ⟨more, rfl, hmore, ?_⟩
      simp only [List.length_cons, List.length_append]
      omega

/-- The text between quotes is read up to the closing one. -/
theorem readChars_textBody {body : List Char} (h : TextBody body) {fuel : Nat}
    (hfuel : body.length < fuel) (acc rest : List Char) :
    ∃ chars, readChars fuel acc (body ++ '"' :: rest) = .ok (chars, rest) := by
  induction fuel generalizing body acc with
  | zero => cases hfuel
  | succ fuel ih =>
  cases h with
  | nil => exact ⟨_, rfl⟩
  | @plain c body hquote hescape hlow hbody =>
      obtain ⟨chars, hread⟩ := ih hbody (Nat.lt_of_succ_lt_succ hfuel) (c :: acc)
      refine ⟨chars, ?_⟩
      rw [List.cons_append, readChars, if_neg (not_or.mpr ⟨hescape, Nat.not_lt_of_le hlow⟩), hread]
      · exact hquote
      · exact fun _ h => absurd h hescape
      · exact fun _ _ h => absurd h hescape
  | @short c body hshort hbody =>
      obtain ⟨e, he⟩ := Option.isSome_iff_exists.mp hshort
      have hlength : body.length < fuel := by
        rw [List.length_cons, List.length_cons] at hfuel
        omega
      obtain ⟨chars, hread⟩ := ih hbody hlength (e :: acc)
      refine ⟨chars, ?_⟩
      rw [List.cons_append, List.cons_append, readChars, he]
      · exact hread
      · rintro rfl
        cases hshort
  | @unit hex body hhex hbody =>
      obtain ⟨n, hn⟩ := fourHex?_append hhex (body ++ '"' :: rest)
      have hlength : body.length < fuel := by
        simp only [List.length_cons, List.length_append] at hfuel
        omega
      rw [List.cons_append, List.cons_append, List.append_assoc, readChars, hn]
      dsimp only
      -- a second half behind the unit is taken with it
      rcases unitChar_cases n (body ++ '"' :: rest) with hafter | ⟨hex', hhex', hafter⟩
      · rw [hafter]
        exact ih hbody hlength _
      · obtain ⟨more, hmore, hmore', hshorter⟩ := hbody.behind_unit hhex' hafter
        rw [hmore]
        exact ih hmore' (hshorter.trans hlength) _

theorem textBody_of_readText {text : String} (h : readText cs = .ok (text, rest)) :
    ∃ body, cs = body ++ '"' :: rest ∧ TextBody body := by
  obtain ⟨⟨chars, after⟩, hread, h⟩ := bind_eq_ok.mp h
  obtain ⟨-, rfl⟩ := Prod.mk.inj (Except.ok.inj h)
  exact textBody_of_readChars hread

theorem readText_textBody {body : List Char} (h : TextBody body) (rest : List Char) :
    ∃ text, readText (body ++ '"' :: rest) = .ok (text, rest) := by
  have hlength : body.length < (body ++ '"' :: rest).length + 1 := by
    rw [List.length_append]
    omega
  obtain ⟨chars, hread⟩ := readChars_textBody h hlength [] rest
  exact ⟨String.ofList chars, by rw [readText, hread, ok_bind]⟩

theorem readChars_error {fuel : Nat} {acc : List Char} {e : ReadError}
    (h : readChars fuel acc cs = .error e) : e = .malformed := by
  fun_induction readChars fuel acc cs with
  | case3 => cases h
  | case4 _ _ _ _ _ _ _ _ _ ih => exact ih h
  | case6 _ _ _ _ _ _ _ ih => exact ih h
  | case9 _ _ _ _ _ _ _ _ ih => exact ih h
  | _ => exact (Except.error.inj h).symm

/-- A text is refused for its form only. -/
theorem readText_error {e : ReadError} (h : readText cs = .error e) : e = .malformed := by
  rcases bind_eq_error.mp h with h | ⟨_, _, h⟩
  · exact readChars_error h
  · cases h

/-! ### Words and numbers -/

/-- The values that are single words. -/
def words : List String := ["null", "true", "false", "NaN", "Infinity", "-Infinity"]

/-- Digits with a minus before them, or without. -/
inductive Signed (Digits : List Char → Prop) : List Char → Prop where
  | plain {n : List Char} : Digits n → Signed Digits n
  | minus {n : List Char} : Digits n → Signed Digits ('-' :: n)

/-- A value that is a word or a number. -/
inductive Scalar : List Char → Prop where
  | word {w : String} : w ∈ words → Scalar w.toList
  | number {n : List Char} : Signed Unsigned n → Scalar n

/-- An integer that is too long to be read. -/
abbrev LongInteger : List Char → Prop := Signed Overlong

theorem after?_cases (word : String) (cs : List Char) :
    (after? word cs = none ∧ ¬ word.toList <+: cs) ∨
      ∃ rest, after? word cs = some rest ∧ cs = word.toList ++ rest := by
  rw [after?]
  split_ifs with h
  · rw [List.isPrefixOf_iff_prefix] at h
    obtain ⟨rest, rfl⟩ := h
    exact .inr ⟨_, rfl, by rw [← String.length_toList, List.drop_left]⟩
  · rw [List.isPrefixOf_iff_prefix] at h
    exact .inl ⟨rfl, h⟩

variable {limit : Option Nat}

theorem readScalar_word {w : String} (hw : w ∈ words) (rest : List Char) :
    ∃ v, readScalar limit (w.toList ++ rest) = .ok (v, rest) := by
  simp only [words, List.mem_cons, List.not_mem_nil, or_false] at hw
  rcases hw with rfl | rfl | rfl | rfl | rfl | rfl
  all_goals exact ⟨_, rfl⟩

theorem head_of_whole {w : List Char} (h : Whole w) :
    ∃ c cs, w = c :: cs ∧ isFigure c = true := by
  cases h with
  | zero => exact ⟨'0', [], rfl, by decide⟩
  | @figures c ds _ hds => exact ⟨c, ds, rfl, hds.all c List.mem_cons_self⟩

theorem head_of_unsigned {n : List Char} (h : Unsigned n) :
    ∃ c cs, n = c :: cs ∧ isFigure c = true := by
  cases h with
  | whole hw => exact head_of_whole hw
  | decimal hw =>
      obtain ⟨c, cs, rfl, hc⟩ := head_of_whole hw
      exact ⟨c, _, rfl, hc⟩

/-- No word has a digit among its first two characters. -/
theorem noWord_of_figure {c : Char} (hmem : c ∈ cs.take 2) (hc : isFigure c = true) :
    ∀ w ∈ words, ¬ w.toList <+: cs := by
  rintro w hw ⟨rest, rfl⟩
  have hwords : ∀ w ∈ words, 2 ≤ w.toList.length ∧ ∀ c ∈ w.toList.take 2, isFigure c = false := by
    simp only [← List.all_iff_forall_prop]
    decide
  obtain ⟨hlength, hfigure⟩ := hwords w hw
  rw [List.take_append_of_le_length hlength] at hmem
  rw [hfigure c hmem] at hc
  cases hc

/-- The number at the front of a text, with its sign. -/
def readSigned (limit : Option Nat) (cs : List Char) : Except ReadError (Json × List Char) :=
  match cs with
  | '-' :: body => readNumber limit true body
  | _ => readNumber limit false cs

/-- Where no word stands at the front of a text, a number is read. -/
theorem readScalar_number (h : ∀ w ∈ words, ¬ w.toList <+: cs) :
    readScalar limit cs = readSigned limit cs := by
  have hnone : ∀ w ∈ words, after? w cs = none := by
    intro w hw
    rcases after?_cases w cs with ⟨hnone, -⟩ | ⟨rest, -, rfl⟩
    · exact hnone
    · exact absurd (List.prefix_append _ _) (h _ hw)
  unfold readScalar
  rw [hnone "null" (by decide), hnone "true" (by decide), hnone "false" (by decide),
    hnone "NaN" (by decide), hnone "Infinity" (by decide), hnone "-Infinity" (by decide)]
  rfl

/-- Where a figure stands at the front of a text, a number without a sign is read. -/
theorem readScalar_figure {c : Char} (hc : isFigure c = true) (cs : List Char) :
    readScalar limit (c :: cs) = readNumber limit false (c :: cs) := by
  rw [readScalar_number (noWord_of_figure (by simp) hc)]
  unfold readSigned
  split
  · rename_i heq
    rw [(List.cons.inj heq).1] at hc
    exact absurd hc (by decide)
  · rfl

/-- Digits behind a sign or none are read as digits. -/
theorem readScalar_signed {Digits : List Char → Prop}
    (hhead : ∀ n, Digits n → ∃ c cs, n = c :: cs ∧ isFigure c = true) (h : Signed Digits cs)
    (rest : List Char) :
    ∃ negative n, Digits n ∧
      readScalar limit (cs ++ rest) = readNumber limit negative (n ++ rest) := by
  cases h with
  | plain hn =>
      obtain ⟨c, n, rfl, hc⟩ := hhead _ hn
      exact ⟨false, _, hn, readScalar_figure hc _⟩
  | minus hn =>
      obtain ⟨c, n, rfl, hc⟩ := hhead _ hn
      refine ⟨true, _, hn, ?_⟩
      rw [readScalar_number (noWord_of_figure (by simp) hc)]
      rfl

/-- A word or a number is read where nothing continues it. -/
theorem readScalar_scalar (h : Scalar cs) (hrest : Ends rest) :
    ∃ v, readScalar (some digitLimit) (cs ++ rest) = .ok (v, rest) := by
  cases h with
  | word hw => exact readScalar_word hw rest
  | number hn =>
      obtain ⟨negative, n, hn, hread⟩ := readScalar_signed (fun _ => head_of_unsigned) hn rest
      rw [hread]
      exact readNumber_unsigned hn hrest negative

/-- An integer that is too long is refused. -/
theorem readScalar_long (h : LongInteger cs) (hrest : ¬ Continues rest) :
    ∃ cause, readScalar (some digitLimit) (cs ++ rest) = .error (.integer cause) := by
  obtain ⟨negative, w, hw, hread⟩ := readScalar_signed (fun _ hw => head_of_whole hw.whole) h rest
  rw [hread]
  exact ⟨_, readNumber_overlong hw hrest negative⟩

/-! ### Soundness -/

/-- What the outcome of a reader says of a text: that a form stands at its front, or that an integer
that is too long does, behind a text that leads to it. -/
def Sound (Front Before Long : List Char → Prop) (cs : List Char) :
    Except ReadError (Json × List Char) → Prop
  | .ok (_, rest) => ∃ front, cs = front ++ rest ∧ Front front
  | .error (.integer _) => ∃ before number rest, cs = before ++ (number ++ rest) ∧ Before before ∧
      Long number ∧ ¬ Continues rest
  | .error .malformed => True

theorem sound_readNumber (negative : Bool) (cs : List Char) :
    Sound Unsigned (· = []) Overlong cs (readNumber (some digitLimit) negative cs) := by
  cases hwhole : wholeDigits? cs with
  | none =>
      rw [readNumber, hwhole]
      trivial
  | some found =>
      obtain ⟨w, rest⟩ := found
      obtain ⟨rfl, hw, hend⟩ := whole_of_wholeDigits? hwhole
      cases hfraction : fractionDigits? rest with
      | some fraction =>
          obtain ⟨ds, after⟩ := fraction
          obtain ⟨rfl, hds, -⟩ := figures_of_fractionDigits? hfraction
          rw [readNumber, hwhole]
          dsimp only
          rw [hfraction]
          dsimp only
          cases hexponent : exponent? after with
          | none => exact ⟨w ++ '.' :: ds, by simp, .decimal hw (.fraction hds)⟩
          | some found =>
              obtain ⟨k, rest⟩ := found
              obtain ⟨e, rfl, he⟩ := exponent_of_exponent? hexponent
              exact ⟨w ++ '.' :: (ds ++ e), by simp, .decimal hw (.both hds he)⟩
      | none =>
          cases hexponent : exponent? rest with
          | some found =>
              obtain ⟨k, after⟩ := found
              obtain ⟨e, rfl, he⟩ := exponent_of_exponent? hexponent
              rw [readNumber, hwhole]
              dsimp only
              rw [hfraction, hexponent]
              exact ⟨w ++ e, by simp, .decimal hw (.exponent he)⟩
          | none =>
              rw [readNumber_whole hw hend hfraction hexponent]
              by_cases hlong : digitLimit < w.length
              · rw [if_pos (by simpa using hlong)]
                have hzero : w ≠ ['0'] := by
                  rintro rfl
                  exact absurd hlong (by decide)
                exact ⟨[], w, rest, rfl, rfl, ⟨hw, hlong⟩, not_continues_iff.mpr
                  ⟨hend.resolve_left hzero, hfraction, hexponent⟩⟩
              · rw [if_neg (by simpa using hlong)]
                exact ⟨w, rfl, .whole hw (Nat.le_of_not_lt hlong)⟩

theorem Sound.signed {Front Long : List Char → Prop} {outcome : Except ReadError (Json × List Char)}
    (h : Sound Front (· = []) Long cs outcome) :
    Sound (Signed Front) (· = []) (Signed Long) cs outcome ∧
      Sound (Signed Front) (· = []) (Signed Long) ('-' :: cs) outcome := by
  match outcome, h with
  | .ok _, h =>
      obtain ⟨front, rfl, hfront⟩ := h
      exact ⟨⟨front, rfl, .plain hfront⟩, ⟨'-' :: front, rfl, .minus hfront⟩⟩
  | .error (.integer _), h =>
      obtain ⟨_, number, rest, rfl, rfl, hlong, hrest⟩ := h
      exact ⟨⟨[], number, rest, rfl, rfl, .plain hlong, hrest⟩,
        ⟨[], '-' :: number, rest, rfl, rfl, .minus hlong, hrest⟩⟩
  | .error .malformed, _ => exact ⟨trivial, trivial⟩

/-- A reader that goes on behind a text tells the same of it, with the text in front. -/
theorem Sound.behind {Front Front' Before Before' Long : List Char → Prop}
    {outcome : Except ReadError (Json × List Char)} (passed : List Char)
    (hfront : ∀ cs, Front cs → Front' (passed ++ cs))
    (hbefore : ∀ cs, Before cs → Before' (passed ++ cs)) (h : Sound Front Before Long cs outcome) :
    Sound Front' Before' Long (passed ++ cs) outcome := by
  match outcome, h with
  | .ok _, ⟨front, hcs, h⟩ =>
      exact ⟨passed ++ front, by rw [hcs, List.append_assoc], hfront front h⟩
  | .error (.integer _), ⟨before, number, rest, hcs, h, hlong, hrest⟩ =>
      exact ⟨passed ++ before, number, rest, by rw [hcs, List.append_assoc], hbefore before h,
        hlong, hrest⟩
  | .error .malformed, _ => trivial

theorem sound_readScalar (cs : List Char) :
    Sound Scalar (· = []) LongInteger cs (readScalar (some digitLimit) cs) := by
  by_cases hword : ∃ w ∈ words, w.toList <+: cs
  · obtain ⟨w, hw, rest, rfl⟩ := hword
    obtain ⟨v, hv⟩ : ∃ v, readScalar (some digitLimit) (w.toList ++ rest) = .ok (v, rest) :=
      readScalar_word hw rest
    rw [hv]
    exact ⟨w.toList, rfl, .word hw⟩
  · rw [readScalar_number (by simpa using hword)]
    refine Sound.behind [] (fun _ => .number) (fun _ => id) ?_
    unfold readSigned
    split
    · exact (sound_readNumber true _).signed.2
    · exact (sound_readNumber false cs).signed.1

end EnumHelpers.Json
