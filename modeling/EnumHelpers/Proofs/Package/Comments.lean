import EnumHelpers.Proofs.Package.Declarations
import EnumHelpers.Proofs.Source.Pattern
import EnumHelpers.Proofs.Source.Position

/-!
# Proofs — comments of constants

The comment of a declaration of constants is the leftmost one on the row on which the last token of
the declaration ends, at or after the end.  The column keeps away the comments that stand before
the end, and the row those of other rows.

Nothing keeps away a comment that stands behind another declaration on the row.  The comment of a
declaration has nothing that begins before it and after the end of the declaration if and only if
everything that begins behind the declaration on its row, with a comment behind it, has another
comment before it.

* `trailing?_notes`: the comment that is found is the first one of the file behind the end.
* `leftmost_of_commentBehind?`: the first one is the leftmost, since comments come in order.
* `nothingBetween_iff`: when nothing begins between the end and the comment.
-/

namespace EnumHelpers.Package
open Source Text

/-! ### The comment behind a place -/

/-- A place is on the row of another one, at it or to the right of it. -/
def Behind (stop start : Position) : Prop := start.row = stop.row ∧ stop.column ≤ start.column

instance (stop start : Position) : Decidable (Behind stop start) :=
  inferInstanceAs (Decidable (_ ∧ _))

/-- The text of a comment without its markers; none when it holds bytes that are no text. -/
def noteText (c : Comment) : Option String := (textOfGlyphs c.glyphs).map Enum.commentText

/-- The first comment of a file behind a place. -/
def commentBehind? (comments : List Comment) (stop : Position) : Option Comment :=
  comments.find? fun c => Behind stop c.start

variable {comments : List Comment} {notes : List Note} {stop : Position} {c : Comment}

/-- The comments of a file as notes: the place and the text of each. -/
theorem notes_of_ok (h : notesOf comments = .ok notes) :
    List.Forall₂ (fun c note => ∃ text, noteText c = some text ∧ note = (c.start, text))
      comments notes := by
  refine (mapM_eq_ok h).imp fun c note hnote => ?_
  rw [noteText]
  split at hnote
  · rename_i text htext
    cases hnote
    exact ⟨_, by rw [htext]; rfl, rfl⟩
  · cases hnote

/-- **The comment that is found** is the first one of the file behind the place. -/
theorem trailing?_notes (h : notesOf comments = .ok notes) (stop : Position) :
    trailing? notes stop = (commentBehind? comments stop).bind noteText := by
  have hrows := notes_of_ok h
  clear h
  induction hrows with
  | nil => rfl
  | @cons c note comments notes hnote _ ih =>
      obtain ⟨text, htext, rfl⟩ := hnote
      rw [trailing?, commentBehind?, List.find?_cons, List.find?_cons]
      by_cases hb : Behind stop c.start
      · have hfound : (c.start.row == stop.row && stop.column ≤ c.start.column) = true := by
          simpa [Behind] using hb
        simp [hb, hfound, htext]
      · have hpassed : (c.start.row == stop.row && stop.column ≤ c.start.column) = false := by
          simpa [Behind] using hb
        simp only [hb, hpassed, decide_false]
        exact ih

theorem exists_noteText (h : notesOf comments = .ok notes) (hc : c ∈ comments) :
    ∃ text, noteText c = some text := by
  have hrows := notes_of_ok h
  clear h
  induction hrows with
  | nil => exact (List.not_mem_nil hc).elim
  | cons hnote _ ih =>
      rcases List.mem_cons.mp hc with rfl | hc
      · obtain ⟨text, htext, -⟩ := hnote
        exact ⟨text, htext⟩
      · exact ih hc

theorem commentBehind?_eq_none :
    commentBehind? comments stop = none ↔ ∀ c ∈ comments, ¬ Behind stop c.start := by
  simp [commentBehind?, List.find?_eq_none]

/-- The comment that is found is the leftmost one, when the comments come in order. -/
theorem leftmost_of_commentBehind? (hordered : comments.Pairwise fun a b => a.start ≤ b.start)
    (h : commentBehind? comments stop = some c) :
    c ∈ comments ∧ Behind stop c.start ∧
      ∀ d ∈ comments, Behind stop d.start → c.start.column ≤ d.start.column := by
  obtain ⟨hbehind, before, after, rfl, hnone⟩ := List.find?_eq_some_iff_append.mp h
  have hc : Behind stop c.start := of_decide_eq_true hbehind
  refine ⟨List.mem_append_right _ List.mem_cons_self, hc, fun d hd hdb => ?_⟩
  rcases List.mem_append.mp hd with hd | hd
  · have hnot := hnone d hd
    simp [hdb] at hnot
  · rcases List.mem_cons.mp hd with rfl | hd
    · exact Nat.le_refl _
    · rw [List.pairwise_append, List.pairwise_cons] at hordered
      exact Position.column_le (hordered.2.1.1 d hd) (hc.1.trans hdb.1.symm)

/-! ### Declarations -/

/-- The words that a declaration begins with when it has no tree of its own. -/
def declarationWords : List String := ["import", "func", "type", "var"]

/-- The place where a row of tokens begins. -/
def startOf? (ts : List Token) : Option Position := ts.head?.map (·.start)

/-- The places where declarations, or the parts of one, begin in a tree of a file. -/
def beginningsOf : Tree → List Position
  -- a function type in a declaration adds a place behind the one where the declaration begins
  | .leaf t => if t.kind ∈ declarationWords.map TokenKind.word then [t.start] else []
  | .node .constants parts =>
    (parts :: allPartsOf .constSpec parts).filterMap fun ps => startOf? (Tree.tokensOfAll ps)
  | .node .typeSpec parts | .node .alias parts => (startOf? (Tree.tokensOfAll parts)).toList
  | .node _ _ => []

/-- The places where the declarations of a file, and the parts of them, begin. -/
def beginnings (trees : List Tree) : List Position := trees.flatMap beginningsOf

/-- The parts of the declarations of constants, group by group. -/
def specParts (trees : List Tree) : List (List (List Tree)) :=
  (allPartsOf .constants trees).map (allPartsOf .constSpec)

/-- A token stands in a row of tokens, but for what is said of the line before it. -/
def StandsIn (ts : List Token) (t : Token) : Prop :=
  ∃ u ∈ ts, ∃ line, t = { u with lineBefore := line }

/-- Nothing begins between two places of a file. -/
def NothingBetween (trees : List Tree) (stop start : Position) : Prop :=
  ∀ b ∈ beginnings trees, stop ≤ b → start ≤ b

variable {trees parts : List Tree}

/-- Nothing begins before the leftmost comment if and only if all that begins behind the place, with a
comment behind it, has a comment before it. -/
theorem nothingBetween_iff (hc : Behind stop c.start) (hmem : c ∈ comments)
    (hleft : ∀ d ∈ comments, Behind stop d.start → c.start.column ≤ d.start.column) :
    NothingBetween trees stop c.start ↔
      ∀ b ∈ beginnings trees, Behind stop b → ∀ d ∈ comments, Behind b d.start →
        ∃ d' ∈ comments, Behind stop d'.start ∧ d'.start ≤ b := by
  constructor
  · intro h b hb hbehind d hd hdb
    exact ⟨c, hmem, hc, h b hb (.inr ⟨hbehind.1.symm, hbehind.2⟩)⟩
  · intro h b hb hle
    by_contra hnot
    have hbehind : Behind stop b ∧ Behind b c.start := by
      rw [Position.le_def] at hle hnot
      unfold Behind at hc ⊢
      omega
    obtain ⟨d, hd, hdb, hdle⟩ := h b hb hbehind.1 c hmem hbehind.2
    have hcd : c.start ≤ d.start := .inr ⟨hc.1.trans hdb.1.symm, hleft d hd hdb⟩
    exact hnot (Position.le_trans hcd hdle)

theorem steady_standsIn (ts : List Token) : Steady (StandsIn ts) := by
  rintro t ⟨u, hu, line, rfl⟩
  exact ⟨u, hu, false, rfl⟩

/-- A declaration ends where its last token does, which is one of the file. -/
theorem last_of_specParts {tokens : List Token} (htrees : treesOf tokens = some trees)
    {specs : List (List Tree)} (hspecs : specs ∈ specParts trees) (hparts : parts ∈ specs) :
    ∃ last, (Tree.tokensOfAll parts).getLast? = some last ∧ StandsIn tokens last ∧
      (constSpecOf parts).stop = last.stop := by
  have hkeeps := treesOf_keeps (steady_standsIn tokens)
    (fun t ht => ⟨t, ht, t.lineBefore, rfl⟩) htrees
  obtain ⟨group, hgroup, rfl⟩ := List.mem_map.mp hspecs
  obtain ⟨hfits, hall⟩ := (hkeeps.of_mem_allPartsOf hgroup).2.of_mem_allPartsOf hparts
  have hlast := List.getLast?_eq_some_getLast hfits
  exact ⟨_, hlast, KeepAll.tokens parts hall _ (List.mem_of_getLast? hlast),
    by rw [constSpecOf, stopOf, hlast]; rfl⟩

theorem comment_of_declaredBy {unit : String} {file : SourceFile} {group : List ConstSpec}
    {spec : ConstSpec} {g k : Nat} {decl : ConstantDecl}
    (h : decl ∈ declaredBy unit file group g spec k) :
    decl.comment = trailing? (notesIn file) spec.stop := by
  obtain ⟨⟨name, i⟩, -, heq⟩ := List.mem_filterMap.mp h
  dsimp only at heq
  split at heq
  · cases heq
  · cases heq
    rfl

/-- **The comments of constants.**  A declaration of constants ends where its last token does.  The
constants that it declares have the leftmost comment behind the end for their comment, or none when
there is none there.  Nothing begins between the end and the comment if and only if everything that
begins behind the end, with a comment behind it, has a comment before it that is behind the end. -/
theorem comments_of_parse {content : List Glyph} {file : SourceFile} {unit : String}
    {decls : List ConstantDecl} (hparse : SourceFile.parse content = some file)
    (hdecls : ofFile unit file = .ok decls) :
    decls = declaredIn unit file ∧ ∃ trees, treesOf (scan content).1 = some trees ∧
      file.constants = (specParts trees).map (List.map constSpecOf) ∧
      ∀ specs ∈ specParts trees, ∀ parts ∈ specs, ∃ last,
        (Tree.tokensOfAll parts).getLast? = some last ∧ StandsIn (scan content).1 last ∧
        ∃ found : Option Comment,
          (∀ group g k, ∀ decl ∈ declaredBy unit file group g (constSpecOf parts) k,
            decl.comment = found.bind noteText) ∧
          (found = none ↔ ∀ c ∈ (scan content).2, ¬ Behind last.stop c.start) ∧
          ∀ c, found = some c → c ∈ (scan content).2 ∧ Behind last.stop c.start ∧
            (∀ d ∈ (scan content).2, Behind last.stop d.start → c.start.column ≤ d.start.column) ∧
            (∃ text, noteText c = some text) ∧
            (NothingBetween trees last.stop c.start ↔
              ∀ b ∈ beginnings trees, Behind last.stop b → ∀ d ∈ (scan content).2,
                Behind b d.start → ∃ d' ∈ (scan content).2, Behind last.stop d'.start ∧
                  d'.start ≤ b) := by
  obtain ⟨trees, htrees, rfl⟩ := Option.map_eq_some_iff.mp hparse
  have hread := ofFile_eq hdecls
  obtain ⟨notes, hnotes, -⟩ := bind_eq_ok.mp hdecls
  refine ⟨hread, trees, htrees, (List.map_map ..).symm, fun specs hspecs parts hparts => ?_⟩
  obtain ⟨last, hlast, hstands, hstop⟩ := last_of_specParts htrees hspecs hparts
  refine ⟨last, hlast, hstands, commentBehind? (scan content).2 last.stop,
    fun group g k decl hdecl => ?_, commentBehind?_eq_none, fun c hc => ?_⟩
  · rw [comment_of_declaredBy hdecl, notesIn_of hnotes, hstop]
    exact trailing?_notes hnotes last.stop
  · obtain ⟨hmem, hbehind, hleft⟩ := leftmost_of_commentBehind? (ordered_scan content) hc
    exact ⟨hmem, hbehind, hleft, exists_noteText hnotes hmem,
      nothingBetween_iff hbehind hmem hleft⟩

/-! ### Two declarations on a row -/

/-- A file with two declarations on a row, and a comment behind the second one. -/
def sharedSource : List Glyph :=
  "package p\nconst (\n\tA = 1; B = 2 // two\n)\n".toList.map .char

/-- What the file says. -/
def sharedFile : SourceFile :=
  ⟨some "p", [],
    [[⟨["A"], some ⟨none, [.int "1"]⟩, ⟨2, 6⟩⟩, ⟨["B"], some ⟨none, [.int "2"]⟩, ⟨2, 13⟩⟩]],
    [⟨⟨2, 14⟩, "// two".toList.map .char⟩]⟩

theorem parse_sharedSource : SourceFile.parse sharedSource = some sharedFile := by
  decide +kernel

/-- The constants of the file. -/
def sharedConstants : List ConstantDecl := [
  ⟨"A", some (.int "1"), none, 0, "a.go", 0, some "two"⟩,
  ⟨"B", some (.int "2"), none, 1, "a.go", 1, some "two"⟩]

theorem ofFile_sharedFile : ofFile "a.go" sharedFile = .ok sharedConstants := by
  decide +kernel

theorem beginnings_sharedSource :
    (treesOf (scan sharedSource).1).map beginnings = some [⟨1, 0⟩, ⟨2, 1⟩, ⟨2, 8⟩] := by
  decide +kernel

/-- The constants of the file are read off by number, and the declarations of them end at tokens of
the file. -/
theorem comments_of_parse_sharedSource :
    SourceFile.parse sharedSource = some sharedFile ∧
      ofFile "a.go" sharedFile = .ok sharedConstants ∧
      ∃ trees, treesOf (scan sharedSource).1 = some trees ∧
        ∀ specs ∈ specParts trees, ∀ parts ∈ specs, ∃ last,
          (Tree.tokensOfAll parts).getLast? = some last ∧ StandsIn (scan sharedSource).1 last := by
  refine ⟨parse_sharedSource, ofFile_sharedFile, ?_⟩
  obtain ⟨-, trees, htrees, -, h⟩ := comments_of_parse parse_sharedSource ofFile_sharedFile
  refine ⟨trees, htrees, fun specs hspecs parts hparts => ?_⟩
  obtain ⟨last, hlast, hstands, -⟩ := h specs hspecs parts hparts
  exact ⟨last, hlast, hstands⟩

/-- The declaration of `A` ends before that of `B` begins, and the comment is behind both.  It is
recorded for `A` as well. -/
theorem comment_of_second_recorded_for_first :
    SourceFile.parse sharedSource = some sharedFile ∧
      ofFile "a.go" sharedFile = .ok sharedConstants ∧
      (∃ decl ∈ sharedConstants, decl.name = "A" ∧ decl.comment = some "two") ∧
      (∃ spec ∈ sharedFile.constants.flatten, spec.names = ["A"] ∧
        ∃ c ∈ sharedFile.comments, ∃ trees, treesOf (scan sharedSource).1 = some trees ∧
          noteText c = some "two" ∧ ¬ NothingBetween trees spec.stop c.start) := by
  refine ⟨parse_sharedSource, ofFile_sharedFile, ⟨_, List.mem_cons_self, rfl, rfl⟩,
    ⟨_, List.mem_cons_self, rfl, _, List.mem_cons_self, ?_⟩⟩
  obtain ⟨trees, htrees, hbegin⟩ := Option.map_eq_some_iff.mp beginnings_sharedSource
  refine ⟨trees, htrees, by decide +kernel, fun h => ?_⟩
  have hlater := h ⟨2, 8⟩ (by rw [hbegin]; decide) (.inr ⟨rfl, by decide⟩)
  rw [Position.le_def] at hlater
  revert hlater
  decide

end EnumHelpers.Package
