import EnumHelpers.Proofs.Enum.Failures
import EnumHelpers.Proofs.Symbol.Order
import Mathlib.Data.List.Permutation

/-!
# Proofs — the enumeration of a type

The constants of a declared type are the records of the table whose type stands for the same type,
in the order of their places (`Enumerated`).  They are what is enumerated, and a type without any
is refused; so is a type that is not declared, and nothing else is refused in these two ways.

* `constants_cases`: what looking for the constants of a type ends in.
* `enumeration_of_named`: what is enumerated, what is refused, and that the order of the table does
  not matter where the places of its records are distinct.
-/

namespace EnumHelpers

namespace SymbolTable

variable {t : SymbolTable}

/-- The name of the type that a named type stands for. -/
def canonicalName (t : SymbolTable) (name : String) : String :=
  match t.canonical (.str name) with
  | .ok (.str target) => target
  | _ => name

theorem Named.canonical_eq (ht : t.Named) (name : String) :
    t.canonical (.str name) = .ok (.str (t.canonicalName name)) := by
  obtain ⟨target, h⟩ := ht.canonical name
  rw [canonicalName, h]

/-- A type is declared in a table. -/
def Declares (t : SymbolTable) (typeName : String) : Prop :=
  ∃ h ∈ t.types, h.name = .str typeName

theorem isSome_handleIn? {name : String} {handles : List TypeHandle} :
    (handleIn? (.str name) handles).isSome ↔ ∃ h ∈ handles, h.name = .str name := by
  induction handles with
  | nil => simp [handleIn?]
  | cons h rest ih =>
      have hfirst : h.name.same (.str name) = true ↔ h.name = .str name := by
        refine ⟨Enum.eq_of_same_str, fun e => ?_⟩
        rw [e, Json.same_str, beq_self_eq_true]
      rw [handleIn?, Option.isSome_or, Bool.or_eq_true, ih]
      by_cases hn : h.name.same (.str name) = true
      · rw [if_pos hn]
        exact ⟨fun _ => ⟨h, List.mem_cons_self, hfirst.mp hn⟩, fun _ => .inr rfl⟩
      · simp [hn, mt hfirst.mpr hn]

theorem lookup_iff_declares {typeName : String} :
    (∃ h, t.lookup typeName = .ok h) ↔ t.Declares typeName := by
  rw [Declares, ← isSome_handleIn?, lookup, handle?]
  cases handleIn? (.str typeName) t.types with
  | some h => simp
  | none =>
      simp only [Option.isSome_none, Bool.false_eq_true, iff_false]
      rintro ⟨h, hh⟩
      obtain ⟨package, -, hh⟩ := bind_eq_ok.mp hh
      cases hh

end SymbolTable

namespace Enum
open SymbolTable ConstantRecord

variable {t : SymbolTable} {request : Request}

/-- Whether a record has a type that stands for the same type as the given one. -/
def belongs (t : SymbolTable) (typeName : String) (r : ConstantRecord) : Bool :=
  match r.type with
  | .str owner => t.canonicalName owner == t.canonicalName typeName
  | _ => false

/-- Records are the constants of a type: those that belong to it, each as often as in the table;
they go up, and those that go up in the table already keep their order. -/
structure Enumerated (t : SymbolTable) (typeName : String) (found : List ConstantRecord) :
    Prop where
  perm : found.Perm (t.constants.filter (belongs t typeName))
  ordered : found.Pairwise NotAfter
  stable : ∀ rs : List ConstantRecord, rs.Sublist (t.constants.filter (belongs t typeName)) →
    rs.Pairwise NotAfter → rs.Sublist found

theorem standsFor_eq_belongs (ht : t.Named) (typeName : String) {r : ConstantRecord}
    (hr : r ∈ t.constants) :
    standsFor t (.str (t.canonicalName typeName)) r = belongs t typeName r := by
  rw [standsFor, hasType, belongs]
  rcases ht.owners r hr with h | ⟨owner, h⟩
  · rw [h]
    rfl
  · rw [h, isNull_str, ht.canonical_eq owner]
    exact Json.same_str _ _

theorem recordsWith_eq (ht : t.Named) (typeName : String) :
    recordsWith t typeName = (byPlace t.constants).filter (belongs t typeName) := by
  rw [recordsWith, ht.mergeSort_mayPrecede, ht.canonical_eq]
  exact List.filter_congr fun r hr =>
    standsFor_eq_belongs ht typeName ((perm_byPlace t.constants).mem_iff.mp hr)

theorem enumerated_recordsWith (ht : t.Named) (typeName : String) :
    Enumerated t typeName (recordsWith t typeName) := by
  rw [recordsWith_eq ht]
  refine ⟨(perm_byPlace t.constants).filter _, (pairwise_byPlace t.constants).filter _, ?_⟩
  intro rs hrs hup
  have hsub : rs.Sublist (byPlace t.constants) :=
    sublist_byPlace (hrs.trans List.filter_sublist) hup
  rw [← List.filter_eq_self.mpr fun r hr => (List.mem_filter.mp (hrs.subset hr)).2]
  exact hsub.filter _

/-! ### What is refused -/

/-- A computation ends in the refusal of a type that is not declared. -/
def NotFound {α : Type} (x : Except Failure α) : Prop :=
  ∃ type package, x = .error (.typeNotFound type package)

/-- A computation ends in the refusal of a type without constants. -/
def NoneFound {α : Type} (x : Except Failure α) : Prop :=
  ∃ type, x = .error (.noConstants type)

/-- **Looking for the constants of a type.**  A type that is not declared is refused, and so is one
without constants; of any other its constants are given. -/
theorem constants_cases (ht : t.Named) (typeName : String) :
    (¬ t.Declares typeName ∧
      ∃ package, constants t typeName = .error (.typeNotFound typeName package)) ∨
    (t.Declares typeName ∧ recordsWith t typeName = [] ∧
      constants t typeName = .error (.noConstants typeName)) ∨
    (t.Declares typeName ∧ recordsWith t typeName ≠ [] ∧
      constants t typeName = .ok (recordsWith t typeName)) := by
  rw [constants_of_named ht, ← lookup_iff_declares]
  rcases ht.lookup typeName with ⟨handle, hh⟩ | ⟨package, hp⟩
  · rw [hh, ok_bind]
    cases hrecords : recordsWith t typeName with
    | nil => exact .inr (.inl ⟨⟨handle, rfl⟩, rfl, rfl⟩)
    | cons r rest => exact .inr (.inr ⟨⟨handle, rfl⟩, List.cons_ne_nil _ _, rfl⟩)
  · rw [hp]
    exact .inl ⟨nofun, package, rfl⟩

theorem constants_eq_ok_iff (ht : t.Named) {typeName : String} {rs : List ConstantRecord} :
    constants t typeName = .ok rs ↔
      t.Declares typeName ∧ recordsWith t typeName ≠ [] ∧ rs = recordsWith t typeName := by
  rcases constants_cases ht typeName with ⟨hd, package, hc⟩ | ⟨hd, hr, hc⟩ | ⟨hd, hr, hc⟩
  · rw [hc]
    exact ⟨nofun, fun h => absurd h.1 hd⟩
  · rw [hc]
    exact ⟨nofun, fun h => absurd hr h.2.1⟩
  · rw [hc, Except.ok.injEq, and_iff_right hd, and_iff_right hr]
    exact eq_comm

theorem notFound_constants_iff (ht : t.Named) {typeName : String} :
    NotFound (constants t typeName) ↔ ¬ t.Declares typeName := by
  rcases constants_cases ht typeName with ⟨hd, package, hc⟩ | ⟨hd, -, hc⟩ | ⟨hd, -, hc⟩
  · exact ⟨fun _ => hd, fun _ => ⟨_, package, hc⟩⟩
  · rw [hc]
    exact ⟨nofun, absurd hd⟩
  · rw [hc]
    exact ⟨nofun, absurd hd⟩

theorem noneFound_constants_iff (ht : t.Named) {typeName : String} :
    NoneFound (constants t typeName) ↔ t.Declares typeName ∧ recordsWith t typeName = [] := by
  rcases constants_cases ht typeName with ⟨hd, package, hc⟩ | ⟨hd, hr, hc⟩ | ⟨hd, hr, hc⟩
  · rw [hc]
    exact ⟨nofun, fun h => absurd h.1 hd⟩
  · exact ⟨fun _ => ⟨hd, hr⟩, fun _ => ⟨_, hc⟩⟩
  · rw [hc]
    exact ⟨nofun, fun h => absurd h.2 hr⟩

/-- A failure refuses a type as a whole. -/
def RefusesType : Failure → Prop
  | .typeNotFound _ _ | .noConstants _ => True
  | _ => False

/-- A record with a name is not refused as a type is. -/
theorem memberOf_eq_error {name : String} {r : ConstantRecord} (hr : r.name = .str name)
    {seen : List Json} {cause : Failure} (h : memberOf request seen r = .error cause) :
    ¬ RefusesType cause := by
  rw [memberOf, hr] at h
  split at h
  · cases h
    exact id
  · split at h
    · cases h
      exact id
    · rcases Recorded.integer_cases name r.value with ⟨-, ⟨n, hn⟩ | ⟨fault, hf⟩⟩ | ⟨-, fault, hf⟩
      · rw [hn, ok_bind] at h
        rcases displayOf_cases request hr with ⟨-, text, ht⟩ | ⟨-, he⟩
        · rw [ht] at h
          cases h
        · rw [he] at h
          cases h
          exact id
      · rw [hf] at h
        cases h
        exact id
      · rw [hf] at h
        cases h
        exact id

/-- Resolving a type refuses it as looking for its constants does. -/
theorem resolve_eq_error_of_type (ht : t.Named) {cause : Failure} (hcause : RefusesType cause) :
    resolve t request = .error cause ↔ constants t request.name = .error cause := by
  rw [resolve, bind_eq_error]
  refine or_iff_left ?_
  rintro ⟨rs, hrs, h⟩
  obtain ⟨before, r, after, rfl, -, hr⟩ := membersFrom_eq_error_iff.mp h
  have hmem := mem_of_mem_constants hrs r (List.mem_append_right _ List.mem_cons_self)
  obtain ⟨name, hname⟩ := ht.names r hmem
  exact memberOf_eq_error hname hr hcause

/-! ### Members -/

/-- A member is that of a record: it has its name, the integer that its value is and its string
form. -/
structure MemberOf (request : Request) (r : ConstantRecord) (m : Member) : Prop where
  name : m.name = r.name
  value : r.value.integer r.name = .ok m.value
  display : displayOf request r = .ok m.display

theorem memberOf_eq_ok_iff {seen : List Json} (hseen : ∀ v ∈ seen, ∃ s, v = .str s)
    {r : ConstantRecord} {name : String} (hr : r.name = .str name) {m : Member} :
    memberOf request seen r = .ok m ↔ r.name ∉ seen ∧ MemberOf request r m := by
  have hkey : r.name.isKey = true := by rw [hr]; rfl
  rw [← any_same_eq_false hseen ⟨name, hr⟩, memberOf]
  simp only [hkey, Bool.not_true, Bool.false_eq_true, if_false]
  constructor
  · intro h
    split at h
    · exact absurd h bind_error_ne_ok
    · rename_i hs
      obtain ⟨value, hv, h⟩ := bind_eq_ok.mp h
      obtain ⟨text, ht, h⟩ := bind_eq_ok.mp h
      cases h
      exact ⟨Bool.not_eq_true _ ▸ hs, rfl, hv, ht⟩
  · rintro ⟨hs, hm⟩
    rw [hs, if_neg Bool.false_ne_true, hm.value, ok_bind, hm.display, ok_bind, ← hm.name]

/-- Records give members one by one, if and only if the names of these are distinct and none of
them is there before. -/
theorem membersFrom_eq_ok_iff {seen : List Json} (hseen : ∀ v ∈ seen, ∃ s, v = .str s)
    {rs : List ConstantRecord} (hn : ∀ r ∈ rs, ∃ s, r.name = .str s) {members : List Member} :
    membersFrom request seen rs = .ok members ↔
      List.Forall₂ (MemberOf request) rs members ∧ (members.map Member.name).Nodup ∧
        ∀ m ∈ members, m.name ∉ seen := by
  induction rs generalizing seen members with
  | nil =>
      rw [membersFrom, List.forall₂_nil_left_iff, Except.ok.injEq]
      constructor
      · rintro rfl
        exact ⟨rfl, List.nodup_nil, fun m hm => absurd hm List.not_mem_nil⟩
      · rintro ⟨rfl, -⟩
        rfl
  | cons r rest ih =>
      rw [List.forall_mem_cons] at hn
      obtain ⟨name, hname⟩ := hn.1
      have ih := @ih (r.name :: seen) (List.forall_mem_cons.mpr ⟨hn.1, hseen⟩) hn.2
      rw [List.forall₂_cons_left_iff]
      constructor
      · intro h
        obtain ⟨m, hm, h⟩ := bind_eq_ok.mp h
        obtain ⟨more, hmore, h⟩ := bind_eq_ok.mp h
        cases h
        obtain ⟨hnew, hm⟩ := (memberOf_eq_ok_iff hseen hname).mp hm
        obtain ⟨hmore, hnodup, hfresh⟩ := ih.mp hmore
        refine ⟨⟨m, more, hm, hmore, rfl⟩, List.nodup_cons.mpr ⟨fun hmem => ?_, hnodup⟩,
          List.forall_mem_cons.mpr ⟨hm.name ▸ hnew, fun m' hm' h => ?_⟩⟩
        · obtain ⟨m', hm', e⟩ := List.mem_map.mp hmem
          exact hfresh m' hm' (e ▸ hm.name ▸ List.mem_cons_self)
        · exact hfresh m' hm' (List.mem_cons_of_mem _ h)
      · rintro ⟨⟨m, more, hm, hmore, rfl⟩, hnodup, hfresh⟩
        rw [List.map_cons, List.nodup_cons] at hnodup
        rw [List.forall_mem_cons] at hfresh
        have hfirst : memberOf request seen r = .ok m :=
          (memberOf_eq_ok_iff hseen hname).mpr ⟨hm.name ▸ hfresh.1, hm⟩
        have hrest : membersFrom request (r.name :: seen) rest = .ok more := by
          refine ih.mpr ⟨hmore, hnodup.2, fun m' hm' h => ?_⟩
          rcases List.mem_cons.mp h with e | h
          · exact hnodup.1 (hm.name ▸ e ▸ List.mem_map_of_mem hm')
          · exact hfresh.2 m' hm' h
        rw [membersFrom, hfirst, ok_bind, hrest, ok_bind]

/-! ### The order of the table -/

variable {cs : List ConstantRecord}

theorem canonicalFrom_constants (fuel : Nat) (seen : List Json) (name : Json) :
    SymbolTable.canonicalFrom { t with constants := cs } fuel seen name =
      t.canonicalFrom fuel seen name := by
  induction fuel generalizing seen name with
  | zero => rfl
  | succ fuel ih =>
      simp only [canonicalFrom, ih]
      rfl

theorem named_of_perm (ht : t.Named) (h : cs.Perm t.constants) :
    SymbolTable.Named { t with constants := cs } where
  package := ht.package
  types := ht.types
  names := fun r hr => ht.names r (h.mem_iff.mp hr)
  owners := fun r hr => ht.owners r (h.mem_iff.mp hr)
  units := fun r hr => ht.units r (h.mem_iff.mp hr)
  orders := fun r hr => ht.orders r (h.mem_iff.mp hr)

theorem constants_of_perm (ht : t.Named) (hplaces : (t.constants.map place).Nodup)
    (h : cs.Perm t.constants) (typeName : String) :
    constants { t with constants := cs } typeName = constants t typeName := by
  have hcanonical (name) : SymbolTable.canonicalName { t with constants := cs } name =
      t.canonicalName name := by
    rw [canonicalName, canonicalName, canonical, canonical, canonicalFrom_constants]
  have hbelongs : belongs { t with constants := cs } typeName = belongs t typeName := by
    funext r
    simp only [belongs, hcanonical]
  have hrecords : recordsWith { t with constants := cs } typeName = recordsWith t typeName := by
    rw [recordsWith_eq (named_of_perm ht h), recordsWith_eq ht, hbelongs,
      byPlace_of_perm hplaces h]
  rw [constants_of_named (named_of_perm ht h), constants_of_named ht, hrecords]
  rfl

/-- **The enumeration of a type.**  On a table with names the constants of a type, in order, are
what is found when the type is declared and has any.  Resolving the type gives members if and only
if every one of these constants, in order, gives one and the names of the members are distinct.
Exactly a type that is not declared is refused as not found, and exactly a declared one without
constants as empty.  Where the places of the records are distinct, none of this depends on the
order in which the table holds them. -/
theorem enumeration_of_named (ht : t.Named) (request : Request) :
    ∃ found, Enumerated t request.name found ∧
      (∀ rs, constants t request.name = .ok rs ↔
        t.Declares request.name ∧ found ≠ [] ∧ rs = found) ∧
      (∀ members, resolve t request = .ok members ↔
        t.Declares request.name ∧ found ≠ [] ∧ List.Forall₂ (MemberOf request) found members ∧
          (members.map Member.name).Nodup) ∧
      ((NotFound (constants t request.name) ↔ ¬ t.Declares request.name) ∧
        (NotFound (resolve t request) ↔ ¬ t.Declares request.name)) ∧
      ((NoneFound (constants t request.name) ↔ t.Declares request.name ∧ found = []) ∧
        (NoneFound (resolve t request) ↔ t.Declares request.name ∧ found = [])) ∧
      ((t.constants.map place).Nodup → ∀ cs : List ConstantRecord, cs.Perm t.constants →
        constants { t with constants := cs } request.name = constants t request.name ∧
        resolve { t with constants := cs } request = resolve t request) := by
  have hnotFound : NotFound (resolve t request) ↔ NotFound (constants t request.name) :=
    exists_congr fun _ => exists_congr fun _ => resolve_eq_error_of_type ht trivial
  have hnoneFound : NoneFound (resolve t request) ↔ NoneFound (constants t request.name) :=
    exists_congr fun _ => resolve_eq_error_of_type ht trivial
  have hn : ∀ r ∈ recordsWith t request.name, ∃ s, r.name = .str s :=
    fun r hr => ht.names r (mem_of_mem_recordsWith hr)
  have hnil : ∀ v ∈ ([] : List Json), ∃ s, v = .str s := fun v hv => absurd hv List.not_mem_nil
  refine ⟨recordsWith t request.name, enumerated_recordsWith ht request.name,
    fun rs => constants_eq_ok_iff ht, fun members => ?_, ?_, ?_, fun hplaces cs h => ?_⟩
  · rw [resolve, bind_eq_ok]
    constructor
    · rintro ⟨rs, hrs, h⟩
      obtain ⟨hd, hr, rfl⟩ := (constants_eq_ok_iff ht).mp hrs
      obtain ⟨hall, hnodup, -⟩ := (membersFrom_eq_ok_iff hnil hn).mp h
      exact ⟨hd, hr, hall, hnodup⟩
    · rintro ⟨hd, hr, hall, hnodup⟩
      exact ⟨_, (constants_eq_ok_iff ht).mpr ⟨hd, hr, rfl⟩,
        (membersFrom_eq_ok_iff hnil hn).mpr ⟨hall, hnodup, fun _ _ => List.not_mem_nil⟩⟩
  · rw [hnotFound, and_self]
    exact notFound_constants_iff ht
  · rw [hnoneFound, and_self]
    exact noneFound_constants_iff ht
  · have hconstants := constants_of_perm ht hplaces h request.name
    exact ⟨hconstants, by rw [resolve, resolve, hconstants]⟩

/-- A table whose constants stand in reverse, one of them under another name of its type. -/
def reversedTable : SymbolTable where
  package := .str "p"
  types := [⟨.str "T", .null⟩, ⟨.str "U", .str "T"⟩]
  constants := [
    ⟨.str "B", .str "U", .exact (.whole 2), .str "a.go", .int 1, .null⟩,
    ⟨.str "A", .str "T", .exact (.whole 1), .str "a.go", .int 0, .null⟩]

theorem named_reversedTable : reversedTable.Named := by
  refine ⟨⟨_, rfl⟩, ?_, ?_, ?_, ?_, ?_⟩
  · exact List.forall_mem_cons.mpr ⟨⟨⟨_, rfl⟩, .inl rfl⟩,
      List.forall_mem_singleton.mpr ⟨⟨_, rfl⟩, .inr ⟨_, rfl⟩⟩⟩
  · exact List.forall_mem_cons.mpr ⟨⟨_, rfl⟩, List.forall_mem_singleton.mpr ⟨_, rfl⟩⟩
  · exact List.forall_mem_cons.mpr ⟨.inr ⟨_, rfl⟩, List.forall_mem_singleton.mpr (.inr ⟨_, rfl⟩)⟩
  · exact List.forall_mem_cons.mpr ⟨⟨_, rfl⟩, List.forall_mem_singleton.mpr ⟨_, rfl⟩⟩
  · exact List.forall_mem_cons.mpr ⟨⟨_, rfl⟩, List.forall_mem_singleton.mpr ⟨_, rfl⟩⟩

theorem belongs_reversedTable :
    ∀ r ∈ reversedTable.constants, belongs reversedTable "T" r = true := by
  have handle : reversedTable.handle? (.str "T") = some ⟨.str "T", .null⟩ := by
    simp [handle?, reversedTable, handleIn?, Json.same_str]
  have handle' : reversedTable.handle? (.str "U") = some ⟨.str "U", .str "T"⟩ := by
    simp [handle?, reversedTable, handleIn?, Json.same_str]
  have types : reversedTable.types.length = 2 := rfl
  have canonical : reversedTable.canonicalName "T" = "T" := by
    simp [canonicalName, SymbolTable.canonical, canonicalFrom, handle, isNull, Json.isKey]
  have canonical' : reversedTable.canonicalName "U" = "T" := by
    simp [canonicalName, SymbolTable.canonical, canonicalFrom, types, handle, handle', isNull,
      Json.isKey, Json.same_str]
  refine List.forall_mem_cons.mpr ⟨?_, List.forall_mem_singleton.mpr ?_⟩
  · simp [belongs, canonical, canonical']
  · simp [belongs, canonical]

/-- The constants of the table are enumerated in the order of their places. -/
theorem enumeration_of_reversedTable : reversedTable.Named ∧
    constants reversedTable "T" = .ok reversedTable.constants.reverse := by
  obtain ⟨found, hfound, hconstants, -⟩ := enumeration_of_named named_reversedTable ⟨"T", "", false⟩
  refine ⟨named_reversedTable, (hconstants _).mpr ?_⟩
  have hperm : found.Perm reversedTable.constants :=
    (List.filter_eq_self.mpr belongs_reversedTable) ▸ hfound.perm
  have hbelow : ¬ NotAfter ⟨.str "B", .str "U", .exact (.whole 2), .str "a.go", .int 1, .null⟩
    ⟨.str "A", .str "T", .exact (.whole 1), .str "a.go", .int 0, .null⟩ := by decide
  refine ⟨⟨_, List.mem_cons_self, rfl⟩, ?_⟩
  rcases List.perm_pair.mp hperm with rfl | rfl
  · exact absurd (List.pairwise_pair.mp hfound.ordered) hbelow
  · exact ⟨List.cons_ne_nil _ _, rfl⟩

end Enum
end EnumHelpers
