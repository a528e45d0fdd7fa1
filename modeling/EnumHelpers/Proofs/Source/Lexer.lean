import EnumHelpers.Proofs.Source.Literal
import EnumHelpers.Source.Lexer

/-!
# Proofs — tokens of a text

The tokens of a source file without stray bytes hold characters only, and those that are numbers or
runes have the form of literals.

* `lexed_scan`: every token of a text is spelled as its kind is, and the comments are texts.
-/

namespace EnumHelpers.Source
open Text Constant Number

/-- How the characters of a token of a kind have to be spelled. -/
def Spelling : TokenKind → List Char → Prop
  | .int, cs => ∃ base ds, IntegerForm cs base ds
  | .float, cs => IsFloat cs
  | .rune, cs => IsRune cs
  | _, _ => True

/-- A token of a text: it and the gap before it hold characters, and it is spelled as its kind
is. -/
structure Lexed (t : Token) : Prop where
  spelled : ∃ cs, t.glyphs = cs.map .char ∧ Spelling t.kind cs
  gap : ∃ cs : List Char, t.gap = cs.map .char

theorem Scan.Takes.take {s : Scan} {F : List Char → Prop} (h : s.Takes F) {cs : List Char} {n : Nat}
    (hs : s (cs.map .char) = some n) : F (cs.take n) := by
  obtain ⟨u, v, rfl, rfl, hu⟩ := h cs n hs
  rwa [List.take_left]

theorem spelling_of_number? {cs : List Char} {kind : TokenKind} {n : Nat}
    (h : number? (cs.map .char) = some (kind, n)) : Spelling kind (cs.take n) := by
  rw [number?] at h
  split at h
  · cases h
    trivial
  · rename_i hfloat hint
    split at h
    · cases h
      exact takes_floatScan.take hfloat
    · cases h
      exact takes_intScan.take hint
  · rename_i hfloat _
    cases h
    exact takes_floatScan.take hfloat
  · rename_i hint
    cases h
    exact takes_intScan.take hint
  · cases h

/-- The token at the front of a text is spelled as its kind is. -/
theorem spelling_of_pieceAt {c : Char} {cs : List Char} {kind : TokenKind} {n : Nat}
    (h : pieceAt c (cs.map .char) = (.token kind, n)) : Spelling kind ((c :: cs).take n) := by
  rw [pieceAt] at h
  dsimp only at h
  split at h
  · cases h
  · split at h
    · cases h
      trivial
    · split at h
      · cases h
      · rename_i hnumber
        cases h
        exact spelling_of_number? hnumber
      · cases h
        trivial
      · rename_i hrune
        cases h
        exact takes_runeScan.take hrune
      · cases h
        trivial

theorem lexed_finish (gap : List Char) (place : Position) (line : Bool) :
    Lexed ⟨.finish, [], (gap.map Glyph.char).reverse, place, place, line⟩ :=
  ⟨⟨[], rfl, trivial⟩, gap.reverse, List.map_reverse.symm⟩

/-- From any place on, the tokens and comments of a text are texts, and spelled as they have to
be. -/
theorem lexed_scanFrom (fuel : Nat) (place : Position) (gap : List Char) (line : Bool)
    (cs : List Char) :
    (∀ t ∈ (scanFrom fuel place (gap.map .char) line (cs.map .char)).1, Lexed t) ∧
      ∀ c ∈ (scanFrom fuel place (gap.map .char) line (cs.map .char)).2,
        ∃ text : List Char, c.glyphs = text.map .char := by
  induction fuel generalizing place gap line cs with
  | zero => exact ⟨List.forall_mem_singleton.mpr (lexed_finish gap place line), nofun⟩
  | succ fuel ih =>
      cases cs with
      | nil => exact ⟨List.forall_mem_singleton.mpr (lexed_finish gap place line), nofun⟩
      | cons c rest =>
          have hpiece : piece? ((c :: rest).map .char) = some (pieceAt c (rest.map .char)) := rfl
          have htake : ∀ n, ((c :: rest).map Glyph.char).take n = ((c :: rest).take n).map .char :=
            fun n => List.map_take.symm
          have hdrop : ∀ n, ((c :: rest).map Glyph.char).drop n = ((c :: rest).drop n).map .char :=
            fun n => List.map_drop.symm
          -- the gap is kept backwards
          have hgap : ∀ n, (((c :: rest).take n).map Glyph.char).reverse ++ gap.map .char =
              (((c :: rest).take n).reverse ++ gap).map .char :=
            fun n => by rw [List.map_append, List.map_reverse]
          cases hp : pieceAt c (rest.map .char) with
          | mk piece n =>
              rw [scanFrom, hpiece, hp]
              dsimp only
              rw [htake, hdrop, hgap]
              cases piece with
              | blank endsLine => exact ih _ _ _ _
              | comment =>
                  obtain ⟨htokens, hcomments⟩ := ih (place.after (((c :: rest).take n).map .char))
                    (((c :: rest).take n).reverse ++ gap) line ((c :: rest).drop n)
                  exact ⟨htokens, List.forall_mem_cons.mpr ⟨⟨_, rfl⟩, hcomments⟩⟩
              | token kind =>
                  obtain ⟨htokens, hcomments⟩ := ih (place.after (((c :: rest).take n).map .char))
                    [] false ((c :: rest).drop n)
                  refine ⟨List.forall_mem_cons.mpr ⟨⟨⟨_, rfl, ?_⟩, gap.reverse, ?_⟩, htokens⟩,
                    hcomments⟩
                  · exact spelling_of_pieceAt hp
                  · exact List.map_reverse.symm

/-- **The tokens of a text are spelled as they have to be**, and its comments are texts. -/
theorem lexed_scan (cs : List Char) :
    (∀ t ∈ (scan (cs.map .char)).1, Lexed t) ∧
      ∀ c ∈ (scan (cs.map .char)).2, ∃ text : List Char, c.glyphs = text.map .char := by
  rw [scan.eq_def]
  split
  · rename_i rest hrest
    cases cs with
    | nil => cases hrest
    | cons c cs =>
        cases hrest
        exact lexed_scanFrom _ _ ['\uFEFF'] _ _
  · exact lexed_scanFrom _ _ [] _ _

end EnumHelpers.Source
