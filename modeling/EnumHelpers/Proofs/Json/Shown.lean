import EnumHelpers.Failure
import EnumHelpers.Proofs.Outcome

/-!
# Proofs — which values are shown

A value has a form in a message unless it is an integer with too many digits, or holds one at any
depth.

* `exists_shown_iff`: the values that have a form.
* `shown_cases`: a value has a form, or the want of one is a fault of numbers.
-/

namespace EnumHelpers

namespace Json
open Number

/-- A value that is an integer too long to be written, or holds one. -/
inductive TooLong : Json → Prop where
  | int {n : Int} (digits : Nat.pow 10 digitLimit ≤ n.natAbs) : TooLong (.int n)
  | item {v : Json} {items : List Json} (mem : v ∈ items) (long : TooLong v) : TooLong (.arr items)
  | field {entry : String × Json} {fields : List (String × Json)} (mem : entry ∈ fields)
      (long : TooLong entry.2) : TooLong (.obj fields)

theorem tooLong_int {n : Int} : TooLong (.int n) ↔ Nat.pow 10 digitLimit ≤ n.natAbs := by
  constructor
  · rintro (digits | _ | _)
    exact digits
  · exact .int

theorem tooLong_arr {items : List Json} : TooLong (.arr items) ↔ ∃ v ∈ items, TooLong v := by
  constructor
  · rintro (_ | ⟨mem, long⟩ | _)
    exact ⟨_, mem, long⟩
  · rintro ⟨v, mem, long⟩
    exact .item mem long

theorem tooLong_obj {fields : List (String × Json)} :
    TooLong (.obj fields) ↔ ∃ entry ∈ fields, TooLong entry.2 := by
  constructor
  · rintro (_ | _ | ⟨mem, long⟩)
    exact ⟨_, mem, long⟩
  · rintro ⟨entry, mem, long⟩
    exact .field mem long

mutual

/-- **A value has a form unless it is too long**, by induction on the value. -/
theorem exists_shown_iff : ∀ v : Json, (∃ s, v.shown = .ok s) ↔ ¬ TooLong v
  | .null | .bool _ | .float _ | .str _ => ⟨fun _ => nofun, fun _ => ⟨_, rfl⟩⟩
  | .int n => by
      rw [shown, integerText, tooLong_int, Nat.not_le]
      split
      · rename_i h
        exact ⟨fun _ => h, fun _ => ⟨_, rfl⟩⟩
      · rename_i h
        exact ⟨nofun, fun hlt => absurd hlt h⟩
  | .arr items => by
      rw [shown, exists_bind_ok, exists_shownItems_iff items, tooLong_arr, not_exists]
      simp only [not_and]
  | .obj fields => by
      rw [shown, exists_bind_ok, exists_shownFields_iff fields, tooLong_obj, not_exists]
      simp only [not_and]

theorem exists_shownItems_iff :
    ∀ items : List Json, (∃ parts, shownItems items = .ok parts) ↔ ∀ v ∈ items, ¬ TooLong v
  | [] => ⟨fun _ => nofun, fun _ => ⟨_, rfl⟩⟩
  | v :: rest => by
      rw [shownItems, exists_bind_bind_ok, exists_shown_iff v, exists_shownItems_iff rest,
        List.forall_mem_cons]

theorem exists_shownFields_iff : ∀ fields : List (String × Json),
    (∃ parts, shownFields fields = .ok parts) ↔ ∀ entry ∈ fields, ¬ TooLong entry.2
  | [] => ⟨fun _ => nofun, fun _ => ⟨_, rfl⟩⟩
  | (k, v) :: rest => by
      rw [shownFields, exists_bind_bind_ok, exists_shown_iff v, exists_shownFields_iff rest,
        List.forall_mem_cons]

end

end Json

/-- **A value is shown, or too long**, and then its message fails for a number. -/
theorem Failure.shown_cases (v : Json) : (¬ v.TooLong ∧ ∃ s, shown v = .ok s) ∨
    (v.TooLong ∧ ∃ fault, shown v = .error (.number fault)) := by
  have hiff := Json.exists_shown_iff v
  rw [shown]
  cases h : v.shown with
  | ok s => exact .inl ⟨hiff.mp ⟨s, h⟩, s, rfl⟩
  | error fault =>
      refine .inr ⟨?_, fault, rfl⟩
      by_contra hlong
      obtain ⟨s, hs⟩ := hiff.mpr hlong
      rw [h] at hs
      cases hs

end EnumHelpers
