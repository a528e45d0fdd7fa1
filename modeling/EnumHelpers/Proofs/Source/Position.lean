import EnumHelpers.Source.Lexer

/-!
# Proofs — places in a file

The places of a file in their order, by row and then by column.  Reading goes forward: what stands
behind a text begins at or after the place where the text begins.

* `ordered_scan`: the comments of a file come in the order of their places.
-/

namespace EnumHelpers.Source
open Text

/-- A place comes no later than another one: on a row before, or on the same row and no further
right. -/
instance : LE Position where
  le p q := p.row < q.row ∨ p.row = q.row ∧ p.column ≤ q.column

namespace Position

variable {p q r : Position}

theorem le_def : p ≤ q ↔ p.row < q.row ∨ p.row = q.row ∧ p.column ≤ q.column := Iff.rfl

theorem le_refl (p : Position) : p ≤ p := .inr ⟨rfl, Nat.le_refl _⟩

theorem le_trans (h : p ≤ q) (h' : q ≤ r) : p ≤ r := by
  rw [le_def] at *
  omega

/-- On one row, a place comes no later when it is no further right. -/
theorem column_le (h : p ≤ q) (hrow : p.row = q.row) : p.column ≤ q.column := by
  rw [le_def] at h
  omega

theorem le_next (p : Position) (g : Glyph) : p ≤ p.next g := by
  rw [next]
  split
  · exact .inl (Nat.lt_succ_self _)
  · exact .inr ⟨rfl, Nat.le_add_right _ _⟩

/-- Glyphs lead forward. -/
theorem le_after (p : Position) (gs : List Glyph) : p ≤ p.after gs := by
  induction gs generalizing p with
  | nil => exact le_refl p
  | cons g gs ih => exact le_trans (le_next p g) (ih (p.next g))

end Position

/-- Comments in the order of their places, none of them before a place. -/
structure Ordered (place : Position) (comments : List Comment) : Prop where
  from_place : ∀ c ∈ comments, place ≤ c.start
  increasing : comments.Pairwise fun a b => a.start ≤ b.start

theorem Ordered.nil (place : Position) : Ordered place [] := ⟨nofun, .nil⟩

theorem Ordered.of_le {place later : Position} {comments : List Comment} (hle : place ≤ later)
    (h : Ordered later comments) : Ordered place comments :=
  ⟨fun c hc => Position.le_trans hle (h.from_place c hc), h.increasing⟩

/-- A comment comes before those that are behind it. -/
theorem Ordered.cons {place : Position} {text : List Glyph} {comments : List Comment}
    (h : Ordered (place.after text) comments) : Ordered place (⟨place, text⟩ :: comments) := by
  have hrest := h.of_le (Position.le_after place text)
  exact ⟨List.forall_mem_cons.mpr ⟨Position.le_refl place, hrest.from_place⟩,
    List.pairwise_cons.mpr ⟨hrest.from_place, h.increasing⟩⟩

/-- From any place on, the comments come in order. -/
theorem ordered_scanFrom (fuel : Nat) (place : Position) (gap : List Glyph) (line : Bool)
    (gs : List Glyph) : Ordered place (scanFrom fuel place gap line gs).2 := by
  induction fuel generalizing place gap line gs with
  | zero => exact .nil place
  | succ fuel ih =>
      rw [scanFrom]
      cases piece? gs with
      | none => exact .nil place
      | some found =>
          obtain ⟨piece, n⟩ := found
          have hforward := Position.le_after place (gs.take n)
          cases piece with
          | blank endsLine => exact (ih _ _ _ _).of_le hforward
          | comment => exact (ih _ _ _ _).cons
          | token kind => exact (ih _ _ _ _).of_le hforward

/-- **The comments of a file come in the order of their places.** -/
theorem ordered_scan (gs : List Glyph) :
    (scan gs).2.Pairwise fun a b => a.start ≤ b.start := by
  rw [scan.eq_def]
  split
  · exact (ordered_scanFrom _ _ _ _ _).increasing
  · exact (ordered_scanFrom _ _ _ _ _).increasing

end EnumHelpers.Source
