import EnumHelpers.Enum.Resolution
import EnumHelpers.Proofs.Outcome

/-!
# Proofs — resolution

The members of a type come from constants of the table: each has the name of a record, and no two
have one name.  So an element is found by its name.

* `name_of_mem_elements`: the name of an element is that of a constant of the table.
* `nodup_names_of_resolve`: the names of the elements of a type are distinct.
-/

namespace EnumHelpers.Enum
open SymbolTable

variable {t : SymbolTable} {request : Request}

/-! ### Records -/

theorem mem_of_mem_recordsOf {target : Json} {all found : List ConstantRecord}
    (h : recordsOf t target all = .ok found) : ∀ r ∈ found, r ∈ all := by
  induction all generalizing found with
  | nil => cases h; simp
  | cons r rest ih =>
      obtain ⟨keep, -, h⟩ := bind_eq_ok.mp h
      obtain ⟨more, hmore, h⟩ := bind_eq_ok.mp h
      cases h
      intro r' hr'
      split at hr'
      · exact (List.mem_cons.mp hr').elim (· ▸ List.mem_cons_self)
          fun hr' => List.mem_cons_of_mem _ (ih hmore r' hr')
      · exact List.mem_cons_of_mem _ (ih hmore r' hr')

/-- The records that are found have the type. -/
theorem hasType_of_mem_recordsOf {target : Json} {all found : List ConstantRecord}
    (h : recordsOf t target all = .ok found) : ∀ r ∈ found, hasType t target r = .ok true := by
  induction all generalizing found with
  | nil => cases h; simp
  | cons r rest ih =>
      obtain ⟨keep, hkeep, h⟩ := bind_eq_ok.mp h
      obtain ⟨more, hmore, h⟩ := bind_eq_ok.mp h
      cases h
      intro r' hr'
      cases keep with
      | true =>
          rcases List.mem_cons.mp hr' with rfl | hr'
          · exact hkeep
          · exact ih hmore r' hr'
      | false => exact ih hmore r' hr'

theorem mem_of_mem_ordered {records : List ConstantRecord} (h : t.ordered = .ok records) :
    ∀ r ∈ records, r ∈ t.constants := by
  rw [ordered] at h
  split at h
  · cases h
    exact fun r hr => List.mem_mergeSort.mp hr
  · cases h

/-- The constants of a type that is found are constants of the table. -/
theorem mem_of_mem_constants {typeName : String} {records : List ConstantRecord}
    (h : constants t typeName = .ok records) : ∀ r ∈ records, r ∈ t.constants := by
  obtain ⟨-, -, h⟩ := bind_eq_ok.mp h
  obtain ⟨target, -, h⟩ := bind_eq_ok.mp h
  obtain ⟨all, hall, h⟩ := bind_eq_ok.mp h
  obtain ⟨found, hfound, h⟩ := bind_eq_ok.mp h
  split at h
  · cases h
  · cases h
    exact fun r hr => mem_of_mem_ordered hall r (mem_of_mem_recordsOf hfound r hr)

/-- A constant of a type has a type. -/
theorem type_of_mem_constants {typeName : String} {records : List ConstantRecord}
    (h : constants t typeName = .ok records) : ∀ r ∈ records, r.type ≠ .null := by
  obtain ⟨-, -, h⟩ := bind_eq_ok.mp h
  obtain ⟨target, -, h⟩ := bind_eq_ok.mp h
  obtain ⟨all, -, h⟩ := bind_eq_ok.mp h
  obtain ⟨found, hfound, h⟩ := bind_eq_ok.mp h
  split at h
  · cases h
  · cases h
    intro r hr htype
    have hhas := hasType_of_mem_recordsOf hfound r hr
    rw [hasType, htype] at hhas
    cases hhas

/-- A handle that is found has the name that was looked up. -/
theorem mem_of_handleIn? {name : Json} {handles : List TypeHandle} {h : TypeHandle}
    (hh : handleIn? name handles = some h) : h ∈ handles ∧ h.name.same name = true := by
  induction handles with
  | nil => cases hh
  | cons h' rest ih =>
      rw [handleIn?, Option.or_eq_some_iff] at hh
      rcases hh with hh | ⟨-, hh⟩
      · exact ⟨List.mem_cons_of_mem _ (ih hh).1, (ih hh).2⟩
      · split at hh
        · rename_i hs
          cases hh
          exact ⟨List.mem_cons_self, hs⟩
        · cases hh

/-- Only a text is equal to a text. -/
theorem eq_of_same_str {v : Json} {s : String} (h : v.same (.str s) = true) : v = .str s := by
  cases v <;> simp_all [Json.same, Json.measure?]

/-- A type that is found is declared in the table. -/
theorem mem_types_of_constants {typeName : String} {records : List ConstantRecord}
    (h : constants t typeName = .ok records) : ∃ h ∈ t.types, h.name = .str typeName := by
  obtain ⟨handle, hl, -⟩ := bind_eq_ok.mp h
  rw [lookup] at hl
  split at hl
  · rename_i hh
    obtain ⟨hm, hs⟩ := mem_of_handleIn? hh
    exact ⟨_, hm, eq_of_same_str hs⟩
  · exact absurd hl bind_error_ne_ok

/-! ### Members -/

theorem memberOf_eq_ok {seen : List Json} {r : ConstantRecord} {m : Member}
    (h : memberOf request seen r = .ok m) :
    m.name = r.name ∧ (seen.any fun s => s.same r.name) = false := by
  rw [memberOf] at h
  split at h
  · cases h
  · split at h
    · exact absurd h bind_error_ne_ok
    · rename_i hs
      obtain ⟨_, -, h⟩ := bind_eq_ok.mp h
      obtain ⟨_, -, h⟩ := bind_eq_ok.mp h
      cases h
      exact ⟨rfl, by simpa using hs⟩

theorem names_membersFrom {seen : List Json} {records : List ConstantRecord}
    {members : List Member} (h : membersFrom request seen records = .ok members) :
    members.map Member.name = records.map ConstantRecord.name := by
  induction records generalizing seen members with
  | nil => cases h; rfl
  | cons r rest ih =>
      obtain ⟨m, hm, h⟩ := bind_eq_ok.mp h
      obtain ⟨more, hmore, h⟩ := bind_eq_ok.mp h
      cases h
      rw [List.map_cons, List.map_cons, ih hmore, (memberOf_eq_ok hm).1]

theorem distinct_membersFrom {seen : List Json} {records : List ConstantRecord}
    {members : List Member} (h : membersFrom request seen records = .ok members) :
    (∀ s ∈ seen, ∀ m ∈ members, s.same m.name = false) ∧
      members.Pairwise fun a b => a.name.same b.name = false := by
  induction records generalizing seen members with
  | nil => cases h; simp
  | cons r rest ih =>
      obtain ⟨m, hm, h⟩ := bind_eq_ok.mp h
      obtain ⟨more, hmore, h⟩ := bind_eq_ok.mp h
      cases h
      obtain ⟨hname, hseen⟩ := memberOf_eq_ok hm
      obtain ⟨hfresh, hpair⟩ := ih hmore
      simp only [List.any_eq_false, Bool.not_eq_true] at hseen
      refine ⟨fun s hs m' hm' => ?_, List.pairwise_cons.mpr ⟨fun m' hm' => ?_, hpair⟩⟩
      · rcases List.mem_cons.mp hm' with rfl | hm'
        · exact hname ▸ hseen s hs
        · exact hfresh s (List.mem_cons_of_mem _ hs) m' hm'
      · exact hname ▸ hfresh r.name List.mem_cons_self m' hm'

/-! ### Elements -/

theorem element?_eq_some {m : Member} {e : Element} (h : m.element? = some e) :
    m.name = .str e.name ∧ m.value = e.value ∧ m.display = .str e.display := by
  rw [Member.element?] at h
  split at h
  · rename_i hn hd
    cases h
    exact ⟨hn, rfl, hd⟩
  · cases h

theorem names_mapM_element? {members : List Member} {elements : List Element}
    (h : members.mapM Member.element? = some elements) :
    members.map Member.name = elements.map fun e => Json.str e.name := by
  induction members generalizing elements with
  | nil => cases h; rfl
  | cons m rest ih =>
      rw [List.mapM_cons] at h
      obtain ⟨e, he, h⟩ := Option.bind_eq_some_iff.mp h
      obtain ⟨more, hmore, h⟩ := Option.bind_eq_some_iff.mp h
      cases h
      rw [List.map_cons, List.map_cons, ih hmore, (element?_eq_some he).1]

theorem names_elementsOf {members : List Member} {elements : List Element}
    (h : elementsOf members = .ok elements) :
    members.map Member.name = elements.map fun e => Json.str e.name := by
  rw [elementsOf] at h
  split at h
  · rename_i he
    cases h
    exact names_mapM_element? he
  · cases h

variable {members : List Member} {elements : List Element}

/-- The name of an element is that of a constant of the table. -/
theorem name_of_mem_elements (hr : resolve t request = .ok members)
    (he : elementsOf members = .ok elements) :
    ∀ e ∈ elements, ∃ r ∈ t.constants, r.name = .str e.name := by
  intro e hm
  obtain ⟨records, hc, hr⟩ := bind_eq_ok.mp hr
  have hname : Json.str e.name ∈ records.map ConstantRecord.name := by
    rw [← names_membersFrom hr, names_elementsOf he]
    exact List.mem_map_of_mem hm
  obtain ⟨r, hmem, hname⟩ := List.mem_map.mp hname
  exact ⟨r, mem_of_mem_constants hc r hmem, hname⟩

/-- The type that is resolved is declared in the table. -/
theorem type_of_resolve (hr : resolve t request = .ok members) :
    ∃ h ∈ t.types, h.name = .str request.name := by
  obtain ⟨records, hc, -⟩ := bind_eq_ok.mp hr
  exact mem_types_of_constants hc

/-- No two elements of a type have one name. -/
theorem nodup_names_of_resolve (hr : resolve t request = .ok members)
    (he : elementsOf members = .ok elements) : (elements.map Element.name).Nodup := by
  obtain ⟨records, -, hr⟩ := bind_eq_ok.mp hr
  have hpair : (members.map Member.name).Pairwise fun a b => a.same b = false :=
    List.pairwise_map.mpr (distinct_membersFrom hr).2
  rw [names_elementsOf he, List.pairwise_map] at hpair
  refine List.pairwise_map.mpr (hpair.imp fun {a b} h e => ?_)
  rw [e, Json.same] at h
  simp at h

end EnumHelpers.Enum
