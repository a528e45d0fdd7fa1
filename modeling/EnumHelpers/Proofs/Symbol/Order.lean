import EnumHelpers.Proofs.Symbol.Names
import Mathlib.Data.List.Nodup

/-!
# Proofs — the order of a table

In a table with names a record has its place by its unit and by its order in the unit, and whether
it may stand before another is a matter of their places.  So the records in order are those of the
table, go up, and keep the order of the table where their places are equal.

* `Named.mergeSort_mayPrecede`: the records of a table are put in the order of their places.
* `byPlace_of_perm`: where the places are distinct, the order of the table does not matter.
-/

namespace EnumHelpers

namespace ConstantRecord

/-- The unit of a record and its order there; in a table with names they are a text and an
integer. -/
def place (r : ConstantRecord) : String × Int :=
  (match r.unit with
    | .str unit => unit
    | _ => "",
   match r.order with
    | .int order => order
    | _ => 0)

theorem place_eq {r : ConstantRecord} {unit : String} {order : Int} (hu : r.unit = .str unit)
    (ho : r.order = .int order) : r.place = (unit, order) := by
  rw [place, hu, ho]

/-- A record does not belong behind another: its unit comes first, or the units are equal and its
order is not larger. -/
def NotAfter (a b : ConstantRecord) : Prop :=
  a.place.1 < b.place.1 ∨ (a.place.1 = b.place.1 ∧ a.place.2 ≤ b.place.2)

instance : DecidableRel NotAfter := fun a b =>
  inferInstanceAs (Decidable (a.place.1 < b.place.1 ∨ _))

theorem NotAfter.trans {a b c : ConstantRecord} (hab : NotAfter a b) (hbc : NotAfter b c) :
    NotAfter a c := by
  rcases hab with hab | ⟨hab, hab'⟩
  · rcases hbc with hbc | ⟨hbc, -⟩
    · exact .inl (String.lt_trans hab hbc)
    · exact .inl (hbc ▸ hab)
  · rcases hbc with hbc | ⟨hbc, hbc'⟩
    · exact .inl (hab ▸ hbc)
    · exact .inr ⟨hab.trans hbc, Int.le_trans hab' hbc'⟩

theorem NotAfter.total (a b : ConstantRecord) : NotAfter a b ∨ NotAfter b a := by
  by_cases hab : a.place.1 < b.place.1
  · exact .inl (.inl hab)
  by_cases hba : b.place.1 < a.place.1
  · exact .inr (.inl hba)
  have h : a.place.1 = b.place.1 :=
    String.le_antisymm (String.not_lt.mp hba) (String.not_lt.mp hab)
  exact (Int.le_total a.place.2 b.place.2).imp (fun ho => .inr ⟨h, ho⟩) fun ho => .inr ⟨h.symm, ho⟩

/-- Two records of which neither belongs behind the other have one place. -/
theorem NotAfter.antisymm {a b : ConstantRecord} (hab : NotAfter a b) (hba : NotAfter b a) :
    a.place = b.place := by
  rcases hab with hab | ⟨hab, hab'⟩
  · rcases hba with hba | ⟨hba, -⟩
    · exact absurd hba (String.lt_asymm hab)
    · exact absurd (hba ▸ hab) (String.lt_irrefl _)
  · rcases hba with hba | ⟨-, hba'⟩
    · exact absurd (hab ▸ hba) (String.lt_irrefl _)
    · exact Prod.ext hab (Int.le_antisymm hab' hba')

/-- Records in the order of their places; those in one place keep their order. -/
def byPlace (rs : List ConstantRecord) : List ConstantRecord :=
  rs.mergeSort fun a b => decide (NotAfter a b)

variable {rs : List ConstantRecord}

theorem perm_byPlace (rs : List ConstantRecord) : (byPlace rs).Perm rs :=
  List.mergeSort_perm _ _

theorem decide_notAfter_trans (a b c : ConstantRecord) (hab : decide (NotAfter a b) = true)
    (hbc : decide (NotAfter b c) = true) : decide (NotAfter a c) = true :=
  decide_eq_true ((of_decide_eq_true hab).trans (of_decide_eq_true hbc))

theorem decide_notAfter_total (a b : ConstantRecord) :
    (decide (NotAfter a b) || decide (NotAfter b a)) = true := by
  rw [Bool.or_eq_true, decide_eq_true_iff, decide_eq_true_iff]
  exact NotAfter.total a b

theorem pairwise_byPlace (rs : List ConstantRecord) : (byPlace rs).Pairwise NotAfter :=
  (List.pairwise_mergeSort decide_notAfter_trans decide_notAfter_total rs).imp of_decide_eq_true

/-- Records that go up already keep their order among the others. -/
theorem sublist_byPlace {sub : List ConstantRecord} (hsub : sub.Sublist rs)
    (h : sub.Pairwise NotAfter) : sub.Sublist (byPlace rs) :=
  List.sublist_mergeSort decide_notAfter_trans decide_notAfter_total (h.imp decide_eq_true) hsub

/-- Where the places are distinct, the order in which the records are given does not matter. -/
theorem byPlace_of_perm {rs' : List ConstantRecord} (hplaces : (rs.map place).Nodup)
    (h : rs'.Perm rs) : byPlace rs' = byPlace rs := by
  have hmem : ∀ r ∈ byPlace rs', r ∈ rs :=
    fun r hr => h.mem_iff.mp ((perm_byPlace rs').mem_iff.mp hr)
  have hmem' : ∀ r ∈ byPlace rs, r ∈ rs := fun r hr => (perm_byPlace rs).mem_iff.mp hr
  refine List.Perm.eq_of_pairwise (fun a b ha hb hab hba => ?_) (pairwise_byPlace rs')
    (pairwise_byPlace rs) ((perm_byPlace rs').trans (h.trans (perm_byPlace rs).symm))
  exact List.inj_on_of_nodup_map hplaces (hmem a ha) (hmem' b hb) (hab.antisymm hba)

end ConstantRecord

namespace SymbolTable
open ConstantRecord

variable {t : SymbolTable}

/-- In a table with names a record may stand before another when it does not belong behind it. -/
theorem Named.mayPrecede_eq (ht : t.Named) {a b : ConstantRecord} (ha : a ∈ t.constants)
    (hb : b ∈ t.constants) : mayPrecede a b = decide (NotAfter a b) := by
  obtain ⟨u, hu⟩ := ht.units a ha
  obtain ⟨v, hv⟩ := ht.units b hb
  obtain ⟨m, hm⟩ := ht.orders a ha
  obtain ⟨n, hn⟩ := ht.orders b hb
  rw [Bool.eq_iff_iff, decide_eq_true_iff, NotAfter, place_eq hu hm, place_eq hv hn, mayPrecede,
    recordBefore?, hu, hv, hm, hn, Json.same_str, Json.same_int, Json.before?_str,
    Json.before?_int]
  by_cases huv : v = u
  · subst huv
    rw [or_iff_right (String.lt_irrefl v), and_iff_right rfl]
    by_cases hmn : n = m
    · simp [hmn]
    · simp [hmn]
  · have hne : ¬ u = v := fun h => huv h.symm
    have hlt : u < v ↔ ¬ v < u :=
      ⟨String.lt_asymm, fun h => by
        by_contra hn
        exact hne (String.le_antisymm (String.not_lt.mp h) (String.not_lt.mp hn))⟩
    simp [huv, hne, hlt]

/-- The records of a table with names are put in the order of their places. -/
theorem Named.mergeSort_mayPrecede (ht : t.Named) :
    t.constants.mergeSort mayPrecede = byPlace t.constants := by
  have h := List.map_mergeSort (f := id) (l := t.constants) (r := mayPrecede)
    (s := fun a b => decide (NotAfter a b)) fun a ha b hb => ht.mayPrecede_eq ha hb
  rwa [List.map_id, List.map_id] at h

end SymbolTable
end EnumHelpers
