import EnumHelpers.Enum.Resolution
import EnumHelpers.Proofs.Enum.Resolution

/-!
# Proofs — tables with names

A table may come from a document, where anything may stand in the place of a name.  In a table whose
names are texts and whose places are integers (`SymbolTable.Named`), looking for the constants of a
type can fail in two ways only: there is no such type, or it has no constants.

* `constants_of_named`: the constants of a declared type are the records whose type stands for what
  it stands for, in the order of the table.
-/

namespace EnumHelpers

/-! ### Texts and integers -/

namespace Json

theorem same_str (a b : String) : (Json.str a).same (.str b) = (a == b) := by
  rw [Json.same]

theorem before?_str (a b : String) : (Json.str a).before? (.str b) = some (decide (a < b)) := by
  rw [Json.before?, Json.textBefore]

theorem same_int (a b : Int) : (Json.int a).same (.int b) = (a == b) := by
  have hcast : ((a : Rat) == b) = (a == b) := by
    rw [Bool.eq_iff_iff, beq_iff_eq, beq_iff_eq, Rat.intCast_inj]
  simp only [Json.same, Json.measure?, Json.Measure.same, hcast]

theorem before?_int (a b : Int) : (Json.int a).before? (.int b) = some (decide (a < b)) := by
  have hcast : decide ((a : Rat) < b) = decide (a < b) := by
    rw [Bool.eq_iff_iff, decide_eq_true_iff, decide_eq_true_iff, Rat.intCast_lt_intCast]
  simp only [Json.before?, Json.measure?, Json.Measure.below, hcast]

end Json

namespace SymbolTable

/-- The names of a table are texts and its places integers. -/
structure Named (t : SymbolTable) : Prop where
  package : ∃ s, t.package = .str s
  types : ∀ h ∈ t.types, (∃ s, h.name = .str s) ∧ (h.aliasOf = .null ∨ ∃ s, h.aliasOf = .str s)
  names : ∀ r ∈ t.constants, ∃ s, r.name = .str s
  owners : ∀ r ∈ t.constants, r.type = .null ∨ ∃ s, r.type = .str s
  units : ∀ r ∈ t.constants, ∃ s, r.unit = .str s
  orders : ∀ r ∈ t.constants, ∃ n, r.order = .int n

variable {t : SymbolTable}

theorem isNull_str (s : String) : isNull (.str s) = false := rfl

/-- A type is found, or refused as one that is not there. -/
theorem Named.lookup (ht : t.Named) (name : String) :
    (∃ h, t.lookup name = .ok h) ∨
      ∃ package, t.lookup name = .error (.typeNotFound name package) := by
  obtain ⟨package, hp⟩ := ht.package
  rw [SymbolTable.lookup]
  cases t.handle? (.str name) with
  | some h => exact .inl ⟨h, rfl⟩
  | none => exact .inr ⟨package, by rw [hp]; rfl⟩

/-- A name stands for a name, however far aliases are followed. -/
theorem Named.canonicalFrom (ht : t.Named) (fuel : Nat) (seen : List Json) (name : String) :
    ∃ target, t.canonicalFrom fuel seen (.str name) = .ok (.str target) := by
  induction fuel generalizing seen name with
  | zero => exact ⟨name, rfl⟩
  | succ fuel ih =>
      rw [SymbolTable.canonicalFrom]
      simp only [isNull_str, Json.isKey, Bool.not_true, Bool.false_eq_true, if_false]
      cases hh : t.handle? (.str name) with
      | none => exact ⟨name, rfl⟩
      | some h =>
          dsimp only
          rcases (ht.types h (Enum.mem_of_handleIn? hh).1).2 with ha | ⟨next, ha⟩
          · rw [ha]
            exact ⟨name, rfl⟩
          · rw [ha, isNull_str, Bool.false_or]
            split
            · exact ⟨name, rfl⟩
            · exact ih _ next

theorem Named.canonical (ht : t.Named) (name : String) :
    ∃ target, t.canonical (.str name) = .ok (.str target) :=
  ht.canonicalFrom _ [] name

theorem Named.comparable (ht : t.Named) {a b : ConstantRecord} (ha : a ∈ t.constants)
    (hb : b ∈ t.constants) : comparable a b = true := by
  obtain ⟨u, hu⟩ := ht.units a ha
  obtain ⟨v, hv⟩ := ht.units b hb
  obtain ⟨m, hm⟩ := ht.orders a ha
  obtain ⟨n, hn⟩ := ht.orders b hb
  rw [SymbolTable.comparable, recordBefore?, hu, hv, hm, hn, Json.before?_str, Json.before?_int]
  split
  · rfl
  · split <;> rfl

/-- The constants of a table can be put in order. -/
theorem Named.ordered (ht : t.Named) : t.ordered = .ok (t.constants.mergeSort mayPrecede) := by
  have hall : ∀ rs, (∀ r ∈ rs, r ∈ t.constants) → allComparable rs = true := by
    intro rs
    induction rs with
    | nil => exact fun _ => rfl
    | cons r rest ih =>
        intro h
        rw [List.forall_mem_cons] at h
        rw [allComparable, ih h.2, Bool.and_true, List.all_eq_true]
        exact fun s hs => ht.comparable h.1 (h.2 s hs)
  rw [SymbolTable.ordered, if_pos (hall _ fun _ h => h)]

end SymbolTable

namespace Enum
open SymbolTable

variable {t : SymbolTable}

/-- Whether the type of a record stands for a target. -/
def standsFor (t : SymbolTable) (target : Json) (r : ConstantRecord) : Bool :=
  (hasType t target r).toOption.getD false

theorem hasType_of_named (ht : t.Named) (target : String) {r : ConstantRecord}
    (hr : r ∈ t.constants) : hasType t (.str target) r = .ok (standsFor t (.str target) r) := by
  suffices h : ∃ b, hasType t (.str target) r = .ok b by
    obtain ⟨b, hb⟩ := h
    rw [standsFor, hb]
    rfl
  rw [hasType]
  rcases ht.owners r hr with h | ⟨owner, h⟩
  · exact ⟨false, by rw [h]; rfl⟩
  · obtain ⟨name, hname⟩ := ht.canonical owner
    exact ⟨_, by rw [h]; simp only [isNull_str, hname, ok_bind]; rfl⟩

theorem recordsOf_of_named (ht : t.Named) (target : String) {rs : List ConstantRecord}
    (h : ∀ r ∈ rs, r ∈ t.constants) :
    recordsOf t (.str target) rs = .ok (rs.filter (standsFor t (.str target))) := by
  induction rs with
  | nil => rfl
  | cons r rest ih =>
      rw [List.forall_mem_cons] at h
      rw [recordsOf, hasType_of_named ht target h.1, ok_bind, ih h.2, ok_bind, List.filter_cons]

/-- The records whose type stands for what a type stands for, in the order of the table. -/
def recordsWith (t : SymbolTable) (typeName : String) : List ConstantRecord :=
  (t.constants.mergeSort mayPrecede).filter
    (standsFor t ((t.canonical (.str typeName)).toOption.getD .null))

/-- **The constants of a type.**  They are those whose type stands for the same, when the type is
declared and there are any. -/
theorem constants_of_named (ht : t.Named) (typeName : String) :
    constants t typeName = (do
      let _ ← t.lookup typeName
      if (recordsWith t typeName).isEmpty then .error (.noConstants typeName)
      else .ok (recordsWith t typeName)) := by
  obtain ⟨target, htarget⟩ := ht.canonical typeName
  have hrecords : recordsOf t (.str target) (t.constants.mergeSort mayPrecede) =
      .ok ((t.constants.mergeSort mayPrecede).filter (standsFor t (.str target))) :=
    recordsOf_of_named ht target fun r hr => List.mem_mergeSort.mp hr
  rw [constants, htarget, ht.ordered, recordsWith, htarget]
  simp only [ok_bind, hrecords]
  rfl

end Enum
end EnumHelpers
