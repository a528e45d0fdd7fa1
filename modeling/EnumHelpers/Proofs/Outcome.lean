import Mathlib.Data.List.Forall2

/-!
# Proofs — computations that may fail

What a computation made of two, one after the other, has for an outcome: the second one's on the
outcome of the first.  A row of computations has the row of their outcomes.  A computation may keep
a state on its way, which it hands on when it fails too.
-/

namespace EnumHelpers

variable {α β ε : Type} {x : Except ε α} {f : α → Except ε β}

/-- Two computations have an outcome when the first one does, and the second one on it. -/
theorem bind_eq_ok {b : β} : (x >>= f) = .ok b ↔ ∃ a, x = .ok a ∧ f a = .ok b := by
  constructor
  · intro h
    cases x with
    | error e => cases h
    | ok a => exact ⟨a, rfl, h⟩
  · rintro ⟨a, rfl, h⟩
    exact h

/-- Two computations fail when the first one does, or the second one on the outcome of the first. -/
theorem bind_eq_error {cause : ε} :
    (x >>= f) = .error cause ↔ x = .error cause ∨ ∃ a, x = .ok a ∧ f a = .error cause := by
  cases x with
  | error e =>
      constructor
      · rintro ⟨⟩
        exact .inl rfl
      · rintro (⟨⟨⟩⟩ | ⟨_, h, _⟩)
        · rfl
        · cases h
  | ok a =>
      refine ⟨fun h => .inr ⟨a, rfl, h⟩, ?_⟩
      rintro (h | ⟨_, ⟨⟩, h⟩)
      · cases h
      · exact h

/-- With a computation that does not fail after it, a computation fails as it does. -/
theorem bind_ok_eq_error {g : α → β} {cause : ε} :
    (x >>= fun a => .ok (g a)) = .error cause ↔ x = .error cause := by
  rw [bind_eq_error]
  refine ⟨?_, .inl⟩
  rintro (h | ⟨_, _, h⟩)
  · exact h
  · cases h

/-- With a computation that always fails after it, a computation has no outcome. -/
theorem bind_error_ne_ok {g : α → ε} {b : β} :
    (x >>= fun a => (.error (g a) : Except ε β)) ≠ .ok b := by
  cases x with
  | error e => nofun
  | ok a => nofun

@[simp] theorem ok_bind (a : α) : (Except.ok a >>= f) = f a := rfl

theorem map_eq_ok {g : α → β} {b : β} : x.map g = .ok b ↔ ∃ a, x = .ok a ∧ g a = b := by
  cases x with
  | error e =>
      refine ⟨fun h => ?_, fun ⟨_, h, _⟩ => ?_⟩
      · cases h
      · cases h
  | ok a =>
      constructor
      · rintro ⟨⟩
        exact ⟨a, rfl, rfl⟩
      · rintro ⟨a, ⟨⟩, rfl⟩
        rfl

theorem map_eq_error {g : α → β} {cause : ε} : x.map g = .error cause ↔ x = .error cause := by
  cases x with
  | error e =>
      constructor
      · rintro ⟨⟩
        rfl
      · rintro ⟨⟩
        rfl
  | ok a =>
      constructor
      · rintro ⟨⟩
      · rintro ⟨⟩

theorem exists_map_eq_ok {g : α → β} : (∃ b, x.map g = .ok b) ↔ ∃ a, x = .ok a := by
  simp only [map_eq_ok]
  exact ⟨fun ⟨_, a, h, _⟩ => ⟨a, h⟩, fun ⟨a, h⟩ => ⟨_, a, h, rfl⟩⟩

/-- With a computation that does not fail after it, a computation has an outcome when it has one
alone. -/
theorem exists_bind_ok {g : α → β} :
    (∃ b, (x >>= fun a => .ok (g a)) = .ok b) ↔ ∃ a, x = .ok a := by
  cases x with
  | ok a => exact ⟨fun _ => ⟨a, rfl⟩, fun _ => ⟨g a, rfl⟩⟩
  | error e => exact ⟨nofun, nofun⟩

/-- Two computations that need nothing of each other have an outcome when both do. -/
theorem exists_bind_bind_ok {γ : Type} {y : Except ε β} {g : α → β → γ} :
    (∃ c, (x >>= fun a => y >>= fun b => .ok (g a b)) = .ok c) ↔
      (∃ a, x = .ok a) ∧ ∃ b, y = .ok b := by
  cases x with
  | ok a =>
      rw [ok_bind, exists_bind_ok]
      exact ⟨fun h => ⟨⟨a, rfl⟩, h⟩, And.right⟩
  | error e => exact ⟨nofun, fun h => nomatch h.1⟩

theorem mapError_eq_error {δ : Type} {g : ε → δ} {cause : δ} :
    x.mapError g = .error cause ↔ ∃ e, x = .error e ∧ g e = cause := by
  cases x with
  | error e =>
      constructor
      · rintro ⟨⟩
        exact ⟨e, rfl, rfl⟩
      · rintro ⟨_, ⟨⟩, rfl⟩
        rfl
  | ok a =>
      constructor
      · rintro ⟨⟩
      · rintro ⟨_, ⟨⟩, _⟩

theorem mapError_eq_ok {δ : Type} {g : ε → δ} {a : α} : x.mapError g = .ok a ↔ x = .ok a := by
  cases x with
  | error e => exact ⟨nofun, nofun⟩
  | ok b =>
      constructor
      · rintro ⟨⟩
        rfl
      · rintro ⟨⟩
        rfl

theorem mapM_eq_ok {xs : List α} {ys : List β} (h : xs.mapM f = .ok ys) :
    List.Forall₂ (fun a b => f a = .ok b) xs ys := by
  induction xs generalizing ys with
  | nil =>
      cases h
      exact .nil
  | cons a xs ih =>
      rw [List.mapM_cons] at h
      obtain ⟨b, hb, h⟩ := bind_eq_ok.mp h
      obtain ⟨bs, hbs, h⟩ := bind_eq_ok.mp h
      cases h
      exact .cons hb (ih hbs)

/-- What stands in one of two rows that are related place by place has its partner in the other. -/
theorem exists_mem_of_forall₂ {R : α → β → Prop} {xs : List α} {ys : List β}
    (h : List.Forall₂ R xs ys) : ∀ x ∈ xs, ∃ y ∈ ys, R x y := by
  induction h with
  | nil => nofun
  | cons hxy _ ih =>
      refine List.forall_mem_cons.mpr ⟨⟨_, List.mem_cons_self, hxy⟩, fun x hx => ?_⟩
      obtain ⟨y, hy, hxy⟩ := ih x hx
      exact ⟨y, List.mem_cons_of_mem _ hy, hxy⟩

/-- Every outcome in a row of them is that of one of the computations. -/
theorem exists_of_mem_mapM {xs : List α} {ys : List β} (h : xs.mapM f = .ok ys) {b : β}
    (hb : b ∈ ys) : ∃ a ∈ xs, f a = .ok b :=
  exists_mem_of_forall₂ (mapM_eq_ok h).flip b hb

/-- A row of computations has an outcome when all of them do. -/
theorem exists_mapM_eq_ok {xs : List α} :
    (∃ ys, xs.mapM f = .ok ys) ↔ ∀ x ∈ xs, ∃ y, f x = .ok y := by
  induction xs with
  | nil => exact ⟨fun _ => nofun, fun _ => ⟨[], rfl⟩⟩
  | cons a xs ih =>
      rw [List.forall_mem_cons, ← ih, List.mapM_cons]
      constructor
      · rintro ⟨ys, h⟩
        obtain ⟨y, hy, h⟩ := bind_eq_ok.mp h
        obtain ⟨ys, hys, -⟩ := bind_eq_ok.mp h
        exact ⟨⟨y, hy⟩, ys, hys⟩
      · rintro ⟨⟨y, hy⟩, ys, hys⟩
        exact ⟨y :: ys, by rw [hy, hys]; rfl⟩

theorem mapM_congr {g : α → Except ε β} {xs : List α} (h : ∀ x ∈ xs, f x = g x) :
    xs.mapM f = xs.mapM g := by
  induction xs with
  | nil => rfl
  | cons a xs ih =>
      rw [List.mapM_cons, List.mapM_cons, h a List.mem_cons_self,
        ih fun x hx => h x (List.mem_cons_of_mem a hx)]

/-- A row of outcomes with a function on each of them. -/
theorem map_mapM {γ : Type} (f : α → Except ε β) (g : β → γ) (xs : List α) :
    (xs.mapM f).map (List.map g) = xs.mapM fun a => (f a).map g := by
  induction xs with
  | nil => rfl
  | cons a xs ih =>
      rw [List.mapM_cons, List.mapM_cons, ← ih]
      cases f a with
      | error e => rfl
      | ok b =>
          cases xs.mapM f with
          | error e => rfl
          | ok bs => rfl

/-- What a computation uses of the one before it can be taken first. -/
theorem bind_map {γ : Type} (x : Except ε α) (g : α → β) (f : β → Except ε γ) :
    (x >>= fun a => f (g a)) = x.map g >>= f := by
  cases x with
  | error e => rfl
  | ok a => rfl

/-- A failure told in other words is told so wherever it comes from. -/
theorem bind_mapError {δ : Type} (x : Except ε α) (f : α → Except ε β) (g : ε → δ) :
    (x >>= f).mapError g = x.mapError g >>= fun a => (f a).mapError g := by
  cases x with
  | error e => rfl
  | ok a => rfl

theorem mapM_mapError {δ : Type} (f : α → Except ε β) (g : ε → δ) (xs : List α) :
    (xs.mapM f).mapError g = xs.mapM fun a => (f a).mapError g := by
  induction xs with
  | nil => rfl
  | cons a xs ih =>
      rw [List.mapM_cons, List.mapM_cons, bind_mapError]
      refine congrArg _ (funext fun b => ?_)
      rw [bind_mapError, ih]
      rfl

/-- What comes to nothing can be left out of a row. -/
theorem mapM_filter {f : α → Except ε (Option β)} {p : α → Bool} {xs : List α}
    (h : ∀ x ∈ xs, p x = false → f x = .ok none) :
    (xs.mapM f).map (List.filterMap id) = ((xs.filter p).mapM f).map (List.filterMap id) := by
  have hcons : ∀ (b : Option β) (row : Except ε (List (Option β))),
      (row >>= fun bs => pure (b :: bs)).map (List.filterMap id) =
        (row.map (List.filterMap id)).map (b.toList ++ ·) := by
    intro b row
    cases row with
    | error e => rfl
    | ok bs => cases b <;> rfl
  induction xs with
  | nil => rfl
  | cons a xs ih =>
      rw [List.forall_mem_cons] at h
      have ih := ih h.2
      cases hp : p a with
      | false =>
          rw [List.filter_cons_of_neg (by rw [hp]; exact Bool.false_ne_true), ← ih, List.mapM_cons,
            h.1 hp, ok_bind, hcons]
          cases xs.mapM f <;> rfl
      | true =>
          rw [List.filter_cons_of_pos hp, List.mapM_cons, List.mapM_cons]
          cases f a with
          | error e => rfl
          | ok b => rw [ok_bind, ok_bind, hcons, hcons, ih]

/-! ### Computations that keep a state -/

theorem run_bind_ok {σ : Type} {x : ExceptT ε (StateM σ) α} {f : α → ExceptT ε (StateM σ) β}
    {s s' : σ} {a : α} (h : x.run s = (.ok a, s')) : (x >>= f).run s = (f a).run s' := by
  have h : (x : StateT σ Id _) s = (.ok a, s') := h
  simp only [bind, ExceptT.bind, ExceptT.run, ExceptT.mk, StateT.bind, ExceptT.bindCont, h]

theorem run_bind_error {σ : Type} {x : ExceptT ε (StateM σ) α} {f : α → ExceptT ε (StateM σ) β}
    {s s' : σ} {cause : ε} (h : x.run s = (.error cause, s')) :
    (x >>= f).run s = (.error cause, s') := by
  have h : (x : StateT σ Id _) s = (.error cause, s') := h
  simp only [bind, ExceptT.bind, ExceptT.run, ExceptT.mk, StateT.bind, ExceptT.bindCont, h]
  rfl

end EnumHelpers
