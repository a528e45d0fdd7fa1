import EnumHelpers.Proofs.Enum.Enumeration
import EnumHelpers.Proofs.Package.Typing

/-!
# Proofs — names that are declared again

The files of a package may declare a name more than once, with different types.  Values are looked
for by name, and of several declarations a name has the last one.  So the records of a name that
has a value are alike: all of them have the type of that value.  Only where there is no value does
each record keep the type of its own declaration (`RecordedAs`).

Resolving a type therefore meets a name that is declared again in all of its records, and is
refused, or it meets the name in none of them, and the constant of the type is left out.

* `exists_resolve_iff`: a type is resolved if and only if its constants make an enumeration.
* `forall₂_of_load`: what the records of a package say of its constants.
* `keptApart_iff`: when a constant whose name is declared again is refused, or returned as declared.
-/

namespace EnumHelpers

/-! ### Types that are resolved -/

namespace Enum
open SymbolTable

variable {t : SymbolTable} {request : Request}

/-- Constants make an enumeration: there are any, their values are integers, and their names are
distinct. -/
structure Enumerable (rs : List ConstantRecord) : Prop where
  nonempty : rs ≠ []
  integers : ∀ r ∈ rs, ∃ n, r.value.integer r.name = .ok n
  distinct : (rs.map ConstantRecord.name).Nodup

theorem Enumerable.of_perm {rs rs' : List ConstantRecord} (he : Enumerable rs)
    (h : rs.Perm rs') : Enumerable rs' where
  nonempty := by
    rintro rfl
    exact he.nonempty h.eq_nil
  integers := fun r hr => he.integers r (h.mem_iff.mpr hr)
  distinct := (h.map _).nodup_iff.mp he.distinct

/-- A record with a text for its comment gives a member if and only if its name is new and its
value is an integer. -/
theorem exists_memberOf_iff {seen : List Json} (hseen : ∀ v ∈ seen, ∃ s, v = .str s)
    {r : ConstantRecord} {name : String} (hr : r.name = .str name) (hc : ¬ BadComment request r) :
    (∃ m, memberOf request seen r = .ok m) ↔
      r.name ∉ seen ∧ ∃ n, r.value.integer r.name = .ok n := by
  simp only [memberOf_eq_ok_iff hseen hr, exists_and_left]
  refine and_congr_right fun _ => ⟨fun ⟨m, hm⟩ => ⟨m.value, hm.value⟩, ?_⟩
  rintro ⟨n, hn⟩
  rcases displayOf_cases request hr with ⟨-, text, htext⟩ | ⟨hbad, -⟩
  · exact ⟨⟨r.name, n, .str text⟩, rfl, hn, htext⟩
  · exact (hc hbad).elim

/-- Records give members if and only if each of them has an integer, and their names are distinct
and new. -/
theorem exists_membersFrom_iff {seen : List Json} (hseen : ∀ v ∈ seen, ∃ s, v = .str s)
    {rs : List ConstantRecord} (hn : ∀ r ∈ rs, ∃ s, r.name = .str s)
    (hc : ∀ r ∈ rs, ¬ BadComment request r) :
    (∃ members, membersFrom request seen rs = .ok members) ↔
      (∀ r ∈ rs, ∃ n, r.value.integer r.name = .ok n) ∧
        (rs.map ConstantRecord.name).Nodup ∧ ∀ r ∈ rs, r.name ∉ seen := by
  induction rs generalizing seen with
  | nil => exact ⟨fun _ => ⟨nofun, List.nodup_nil, nofun⟩, fun _ => ⟨[], rfl⟩⟩
  | cons r rest ih =>
      rw [List.forall_mem_cons] at hn hc
      obtain ⟨name, hname⟩ := hn.1
      have ih := @ih (r.name :: seen) (List.forall_mem_cons.mpr ⟨hn.1, hseen⟩) hn.2 hc.2
      rw [membersFrom, exists_bind_bind_ok, exists_memberOf_iff hseen hname hc.1, ih,
        List.forall_mem_cons, List.forall_mem_cons, List.map_cons, List.nodup_cons]
      -- behind the record a name is new when it is neither in `seen` nor that of the record
      simp only [List.mem_cons, not_or, forall_and, List.mem_map, not_exists, not_and]
      tauto

/-- **When a type is resolved.**  On a table with names whose comments are texts, a type is resolved
if and only if it is declared and its constants make an enumeration. -/
theorem exists_resolve_iff (ht : t.Named) (hc : ∀ r ∈ t.constants, ¬ BadComment request r) :
    (∃ members, resolve t request = .ok members) ↔
      t.Declares request.name ∧ Enumerable (t.constants.filter (belongs t request.name)) := by
  have hmem : ∀ r ∈ recordsWith t request.name, r ∈ t.constants :=
    fun r hr => mem_of_mem_recordsWith hr
  have hperm := (enumerated_recordsWith ht request.name).perm
  have hmembers :
      (∃ members, membersFrom request [] (recordsWith t request.name) = .ok members) ↔ _ :=
    exists_membersFrom_iff (List.forall_mem_nil _) (fun r hr => ht.names r (hmem r hr))
      fun r hr => hc r (hmem r hr)
  constructor
  · rintro ⟨members, h⟩
    obtain ⟨rs, hrs, hm⟩ := bind_eq_ok.mp h
    obtain ⟨hd, hne, rfl⟩ := (constants_eq_ok_iff ht).mp hrs
    obtain ⟨hintegers, hdistinct, -⟩ := hmembers.mp ⟨members, hm⟩
    exact ⟨hd, Enumerable.of_perm ⟨hne, hintegers, hdistinct⟩ hperm⟩
  · rintro ⟨hd, he⟩
    have he := he.of_perm hperm.symm
    obtain ⟨members, hm⟩ :=
      hmembers.mpr ⟨he.integers, he.distinct, fun _ _ => List.not_mem_nil⟩
    exact ⟨members, bind_eq_ok.mpr ⟨_, (constants_eq_ok_iff ht).mpr ⟨hd, he.nonempty, rfl⟩, hm⟩⟩

/-- The name of a member is that of a constant of the type. -/
theorem exists_record_of_mem (ht : t.Named) {members : List Member}
    (h : resolve t request = .ok members) {m : Member} (hm : m ∈ members) :
    ∃ r ∈ t.constants, belongs t request.name r = true ∧ r.name = m.name := by
  obtain ⟨rs, hrs, h⟩ := bind_eq_ok.mp h
  obtain ⟨-, -, rfl⟩ := (constants_eq_ok_iff ht).mp hrs
  have hname : m.name ∈ (recordsWith t request.name).map ConstantRecord.name := by
    rw [← names_membersFrom h]
    exact List.mem_map_of_mem hm
  obtain ⟨r, hr, hname⟩ := List.mem_map.mp hname
  obtain ⟨hmem, hbelongs⟩ :=
    List.mem_filter.mp ((enumerated_recordsWith ht request.name).perm.mem_iff.mp hr)
  exact ⟨r, hmem, hbelongs, hname⟩

/-- The constants of a type but for those with a name. -/
def others (t : SymbolTable) (typeName name : String) : List ConstantRecord :=
  (t.constants.filter (belongs t typeName)).filter fun r => !r.name.same (.str name)

end Enum

namespace Package
open Source SymbolTable

/-! ### Records -/

/-- A record is that of a constant.  When the name of the constant has no value, the record has the
type of the constant's own declaration, and otherwise that of the name. -/
structure RecordedAs (types : Types) (decls : List ConstantDecl) (decl : ConstantDecl)
    (r : ConstantRecord) : Prop where
  name : r.name = .str decl.name
  unit : r.unit = .str decl.unit
  order : r.order = .int decl.order
  comment : ∀ request, ¬ Enum.BadComment request r
  unevaluated : Unevaluated types decls decl.name →
    r.value = .absent ∧ r.type = optionalText decl.type
  evaluated : ¬ Unevaluated types decls decl.name →
    r.type = optionalText (typeOf types decls [] decl.name)

variable {types : Types} {decls : List ConstantDecl} {decl other : ConstantDecl}
  {table : SymbolTable} {T : String}

theorem recordedAs_of_recorded {value : Recorded} {type : Option String}
    (h : recorded decl (direct types decls [] decl.name) = .ok (value, type)) :
    RecordedAs types decls decl (recordOf (decl, value, type)) where
  name := rfl
  unit := rfl
  order := rfl
  comment := by
    rintro request ⟨-, hgiven, hnot⟩
    rw [recordOf] at hgiven hnot
    cases hc : decl.comment with
    | none =>
        rw [hc] at hgiven
        cases hgiven
    | some text =>
        rw [hc] at hnot
        exact hnot text rfl
  unevaluated hun := by
    rcases recorded_direct_cases h with ⟨-, rfl, rfl⟩ | ⟨hnot, -⟩
    · exact ⟨rfl, rfl⟩
    · exact (hnot hun).elim
  evaluated hnot := by
    rcases recorded_direct_cases h with ⟨hun, -⟩ | ⟨-, -, rfl⟩
    · exact (hnot hun).elim
    · rfl

/-- **The records of a package** are those of its constants, in order. -/
theorem forall₂_of_load {sources : Sources} {files : List (String × SourceFile)}
    (hfiles : FilesOf sources files) (h : load sources = .ok table) :
    ∃ types, Types.ofFiles (files.map Prod.snd) = .ok types ∧
      List.Forall₂ (RecordedAs types (declaredInAll files)) (declaredInAll files)
        table.constants := by
  obtain ⟨parsed, hparsed, h⟩ := bind_eq_ok.mp h
  obtain ⟨package, -, h⟩ := bind_eq_ok.mp h
  rw [(filesOf_parseAll hfiles.nodup hparsed).unique hfiles] at h
  obtain ⟨types, htypes, h⟩ := bind_eq_ok.mp h
  obtain ⟨decls, hdecls, h⟩ := bind_eq_ok.mp h
  obtain ⟨records, hrecords, ⟨⟩⟩ := bind_eq_ok.mp h
  rw [constantsOf_eq hdecls, recordAll_eq_alone _ sound_empty] at hrecords
  refine ⟨types, htypes, List.forall₂_map_right_iff.mpr ?_⟩
  refine (mapM_eq_ok hrecords).imp fun decl entry hentry => ?_
  obtain ⟨⟨value, type⟩, hrecorded, rfl⟩ := map_eq_ok.mp hentry
  exact recordedAs_of_recorded hrecorded

/-- The records of constants that stand in order are in order. -/
theorem pairwise_of_forall₂ {ds : List ConstantDecl} {rs : List ConstantRecord}
    (hrows : List.Forall₂ (RecordedAs types decls) ds rs) (h : ds.Pairwise Before) :
    rs.Pairwise RecordBefore := by
  induction hrows with
  | nil => exact .nil
  | @cons d r ds rs hd hrest ih =>
      rw [List.pairwise_cons] at h
      refine List.pairwise_cons.mpr ⟨fun r' hr' => ?_, ih h.2⟩
      obtain ⟨d', hmem, hd'⟩ := exists_mem_of_forall₂ hrest.flip r' hr'
      exact recordBefore_of_before (h.1 d' hmem) ⟨hd.unit, hd.order⟩ ⟨hd'.unit, hd'.order⟩

/-- The records of a package are in order, whatever its names are. -/
theorem ordered_of_load {sources : Sources} {files : List (String × SourceFile)}
    (hfiles : FilesOf sources files) (h : load sources = .ok table) :
    table.ordered = .ok table.constants := by
  obtain ⟨types, -, hrows⟩ := forall₂_of_load hfiles h
  exact ordered_of_pairwise (pairwise_of_forall₂ hrows (pairwise_before hfiles.increasing))

/-- The name of a constant is declared again by another one. -/
structure Redeclared (decls : List ConstantDecl) (decl other : ConstantDecl) : Prop where
  mem : decl ∈ decls
  mem_other : other ∈ decls
  name : other.name = decl.name
  ne : decl ≠ other

/-- Constants that stand in order differ in their places. -/
theorem eq_of_place (h : decls.Pairwise Before) (hd : decl ∈ decls) (ho : other ∈ decls)
    (hunit : decl.unit = other.unit) (horder : decl.order = other.order) : decl = other := by
  have hplaces : (decls.map fun d => (d.unit, d.order)).Nodup := by
    refine List.pairwise_map.mpr (h.imp fun {a b} hab heq => ?_)
    obtain ⟨hu, ho⟩ := Prod.mk.inj heq
    rcases hab with hlt | ⟨-, hlt⟩
    · exact String.lt_irrefl _ (hu ▸ hlt)
    · exact Nat.lt_irrefl _ (ho ▸ hlt)
  exact List.inj_on_of_nodup_map hplaces hd ho (Prod.ext hunit horder)

/-! ### Names in a type -/

theorem belongs_iff {r : ConstantRecord} {owner : Option String}
    (hr : r.type = optionalText owner) : Enum.belongs table T r = true ↔
      ∃ name, owner = some name ∧ table.canonicalName name = table.canonicalName T := by
  rw [Enum.belongs, hr]
  cases owner with
  | none =>
      refine iff_of_false Bool.false_ne_true ?_
      rintro ⟨_, ⟨⟩, _⟩
  | some name =>
      simp only [optionalText, beq_iff_eq, Option.some.injEq, exists_eq_left']

/-- The last declaration of a name gives it a type that stands for the same type as the given
one. -/
def LastStandsFor (types : Types) (decls : List ConstantDecl) (table : SymbolTable)
    (name T : String) : Prop :=
  ∃ last owner, declOf? decls name = some last ∧ staticType types decls last = some owner ∧
    table.canonicalName owner = table.canonicalName T

/-- With a value, a constant belongs to the type that the last declaration of its name gives. -/
theorem belongs_iff_of_evaluated {r : ConstantRecord} (hr : RecordedAs types decls decl r)
    (heval : ¬ Unevaluated types decls decl.name) :
    Enum.belongs table T r = true ↔ LastStandsFor types decls table decl.name T := by
  rw [belongs_iff (hr.evaluated heval), typeOf_nil, LastStandsFor]
  simp only [Option.bind_eq_some_iff]
  exact ⟨fun ⟨owner, ⟨last, hl, ho⟩, hc⟩ => ⟨last, owner, hl, ho, hc⟩,
    fun ⟨last, owner, hl, ho, hc⟩ => ⟨owner, ⟨last, hl, ho⟩, hc⟩⟩

variable (hrows : List.Forall₂ (RecordedAs types decls) decls table.constants)
include hrows

/-- A constant without a value is met in the type of its declaration. -/
theorem not_enumerable_of_unevaluated (hd : decl ∈ decls) (hT : decl.type = some T)
    (hun : Unevaluated types decls decl.name) :
    ¬ Enum.Enumerable (table.constants.filter (Enum.belongs table T)) := by
  obtain ⟨r, hmem, hr⟩ := exists_mem_of_forall₂ hrows decl hd
  obtain ⟨hvalue, htype⟩ := hr.unevaluated hun
  have hbelongs : Enum.belongs table T r = true := (belongs_iff htype).mpr ⟨T, hT, rfl⟩
  intro he
  obtain ⟨n, hn⟩ := he.integers r (List.mem_filter.mpr ⟨hmem, hbelongs⟩)
  rw [hvalue, hr.name] at hn
  cases hn

/-- A name that is declared again and belongs to a type is met there twice. -/
theorem not_enumerable_of_standsFor (hbefore : decls.Pairwise Before)
    (hagain : Redeclared decls decl other) (heval : ¬ Unevaluated types decls decl.name)
    (hstands : LastStandsFor types decls table decl.name T) :
    ¬ Enum.Enumerable (table.constants.filter (Enum.belongs table T)) := by
  obtain ⟨r, hmem, hr⟩ := exists_mem_of_forall₂ hrows decl hagain.mem
  obtain ⟨r', hmem', hr'⟩ := exists_mem_of_forall₂ hrows other hagain.mem_other
  have hbelongs : Enum.belongs table T r = true := (belongs_iff_of_evaluated hr heval).mpr hstands
  have hbelongs' : Enum.belongs table T r' = true :=
    (belongs_iff_of_evaluated hr' (hagain.name ▸ heval)).mpr (hagain.name ▸ hstands)
  intro he
  have hsame : r = r' := List.inj_on_of_nodup_map he.distinct
    (List.mem_filter.mpr ⟨hmem, hbelongs⟩) (List.mem_filter.mpr ⟨hmem', hbelongs'⟩)
    (by rw [hr.name, hr'.name, hagain.name])
  subst hsame
  -- the records stand in different places
  refine hagain.ne (eq_of_place hbefore hagain.mem hagain.mem_other ?_ ?_)
  · injection hr.unit.symm.trans hr'.unit
  · have horder := hr.order.symm.trans hr'.order
    injection horder with horder
    exact Int.ofNat.inj horder

/-- A name whose value has another type is not met in a type. -/
theorem name_ne_of_belongs {name : String} (heval : ¬ Unevaluated types decls name)
    (hnot : ¬ LastStandsFor types decls table name T) {r : ConstantRecord}
    (hr : r ∈ table.constants) (hbelongs : Enum.belongs table T r = true) : r.name ≠ .str name := by
  obtain ⟨decl, -, hdecl⟩ := exists_mem_of_forall₂ hrows.flip r hr
  intro hname
  obtain rfl : decl.name = name := by
    injection hdecl.name.symm.trans hname
  exact hnot ((belongs_iff_of_evaluated hdecl heval).mp hbelongs)

/-- The constants of a type are the others, where a name is not met in the type. -/
theorem others_eq_filter {name : String} (heval : ¬ Unevaluated types decls name)
    (hnot : ¬ LastStandsFor types decls table name T) :
    Enum.others table T name = table.constants.filter (Enum.belongs table T) := by
  refine List.filter_eq_self.mpr fun r hr => ?_
  obtain ⟨hmem, hbelongs⟩ := List.mem_filter.mp hr
  rw [Bool.not_eq_true', Bool.eq_false_iff]
  exact fun hsame =>
    name_ne_of_belongs hrows heval hnot hmem hbelongs (Enum.eq_of_same_str hsame)

/-- With a name that is declared again, the constants of a type make an enumeration if and only if
the name is not met in the type and the others make one. -/
theorem enumerable_iff_of_redeclared (hbefore : decls.Pairwise Before)
    (hagain : Redeclared decls decl other) (hT : decl.type = some T) :
    Enum.Enumerable (table.constants.filter (Enum.belongs table T)) ↔
      ¬ Unevaluated types decls decl.name ∧ ¬ LastStandsFor types decls table decl.name T ∧
        Enum.Enumerable (Enum.others table T decl.name) := by
  constructor
  · intro he
    have heval : ¬ Unevaluated types decls decl.name :=
      fun hun => not_enumerable_of_unevaluated hrows hagain.mem hT hun he
    have hlast : ¬ LastStandsFor types decls table decl.name T :=
      fun hstands => not_enumerable_of_standsFor hrows hbefore hagain heval hstands he
    exact ⟨heval, hlast, (others_eq_filter hrows heval hlast).symm ▸ he⟩
  · rintro ⟨heval, hlast, he⟩
    rwa [others_eq_filter hrows heval hlast] at he

variable {request : Enum.Request}

/-- With a name that is declared again, a type is resolved if and only if it is declared, the name
is not met in it and its other constants make an enumeration. -/
theorem exists_resolve_iff_of_redeclared (hnamed : table.Named) (hbefore : decls.Pairwise Before)
    (hagain : Redeclared decls decl other) (hT : decl.type = some request.name) :
    (∃ members, Enum.resolve table request = .ok members) ↔
      table.Declares request.name ∧ ¬ Unevaluated types decls decl.name ∧
        ¬ LastStandsFor types decls table decl.name request.name ∧
        Enum.Enumerable (Enum.others table request.name decl.name) := by
  have hcomments : ∀ r ∈ table.constants, ¬ Enum.BadComment request r := by
    intro r hr
    obtain ⟨d, -, hd⟩ := exists_mem_of_forall₂ hrows.flip r hr
    exact hd.comment request
  rw [Enum.exists_resolve_iff hnamed hcomments,
    enumerable_iff_of_redeclared hrows hbefore hagain hT]

/-- **A name that is declared again is not returned** by resolving one of its types. -/
theorem name_ne_of_mem_resolve (hnamed : table.Named) (hbefore : decls.Pairwise Before)
    (hagain : Redeclared decls decl other) (hT : decl.type = some request.name)
    {members : List Enum.Member} (h : Enum.resolve table request = .ok members) :
    ∀ m ∈ members, m.name ≠ .str decl.name := by
  obtain ⟨-, heval, hlast, -⟩ :=
    (exists_resolve_iff_of_redeclared hrows hnamed hbefore hagain hT).mp ⟨members, h⟩
  intro m hm hmname
  obtain ⟨r, hr, hbelongs, hrname⟩ := Enum.exists_record_of_mem hnamed h hm
  exact name_ne_of_belongs hrows heval hlast hr hbelongs (hrname.trans hmname)

omit hrows

/-! ### Constants that are kept apart -/

/-- Resolving a type keeps a constant apart: it fails, or returns the name of the constant with the
value of the constant's own declaration. -/
def KeptApart (files : List (String × SourceFile)) (decl : ConstantDecl)
    (outcome : Except EnumHelpers.Failure (List Enum.Member)) : Prop :=
  (∃ cause, outcome = .error cause) ∨
    ∃ members, outcome = .ok members ∧ ∃ m ∈ members, m.name = .str decl.name ∧
      ∃ types value type, Types.ofFiles (files.map Prod.snd) = .ok types ∧
        valueOf types (declaredInAll files) decl = .ok (value, type) ∧
        value.integer m.name = .ok m.value

/-- Without a member that has its name, a constant is kept apart by a failure alone. -/
theorem keptApart_iff_of_forall_ne {files : List (String × SourceFile)}
    {outcome : Except EnumHelpers.Failure (List Enum.Member)}
    (h : ∀ members, outcome = .ok members → ∀ m ∈ members, m.name ≠ .str decl.name) :
    KeptApart files decl outcome ↔ ¬ ∃ members, outcome = .ok members := by
  cases outcome with
  | error cause => exact ⟨fun _ ⟨_, h⟩ => (nomatch h), fun _ => .inl ⟨cause, rfl⟩⟩
  | ok members =>
      refine ⟨?_, fun hnone => (hnone ⟨members, rfl⟩).elim⟩
      rintro (⟨_, ⟨⟩⟩ | ⟨_, ⟨⟩, m, hm, hname, -⟩)
      exact (h members rfl m hm hname).elim

/-- **When a constant is kept apart.**  Let the files of a package declare a constant with the type
`T`, and its name again with another type `U`.  Resolving `T` fails, or returns the name with the
value of the constant's own declaration, if and only if the name has no value, or has one of a type
that stands for `T`, since the type of its last declaration does, or `T` is not resolved without the
name: it is not declared, or its other constants make no enumeration. -/
theorem keptApart_iff {sources : Sources} {files : List (String × SourceFile)}
    (hfiles : FilesOf sources files) (hd : decl ∈ declaredInAll files)
    (ho : other ∈ declaredInAll files) (hname : other.name = decl.name) {U : String}
    (hT : decl.type = some T) (hU : other.type = some U) (hTU : T ≠ U)
    (hrequest : request.name = T) :
    KeptApart files decl (load sources >>= fun table => Enum.resolve table request) ↔
      ∀ types table, Types.ofFiles (files.map Prod.snd) = .ok types →
        load sources = .ok table →
          Unevaluated types (declaredInAll files) decl.name ∨
          LastStandsFor types (declaredInAll files) table decl.name T ∨
          ¬ (table.Declares T ∧ Enum.Enumerable (Enum.others table T decl.name)) := by
  subst hrequest
  have hagain : Redeclared (declaredInAll files) decl other := by
    refine ⟨hd, ho, hname, ?_⟩
    rintro rfl
    exact hTU (Option.some.inj (hT.symm.trans hU))
  cases hload : load sources with
  | error cause => exact ⟨fun _ _ _ _ h => (nomatch h), fun _ => .inl ⟨cause, rfl⟩⟩
  | ok table =>
      have hnamed := named_of_load hload
      have hbefore := pairwise_before hfiles.increasing
      obtain ⟨types, htypes, hrows⟩ := forall₂_of_load hfiles hload
      have habsent : ∀ members, Enum.resolve table request = .ok members →
          ∀ m ∈ members, m.name ≠ .str decl.name :=
        fun _ => name_ne_of_mem_resolve hrows hnamed hbefore hagain hT
      -- the name is not returned, and so it matters only whether the type is resolved
      rw [ok_bind, keptApart_iff_of_forall_ne habsent,
        exists_resolve_iff_of_redeclared hrows hnamed hbefore hagain hT]
      constructor
      · rintro h types' table' htypes' ⟨⟩
        cases htypes.symm.trans htypes'
        tauto
      · intro h
        have hcases := h types table htypes rfl
        tauto

/-! ### A constant that is left out -/

/-- A file that declares a name with one type, and again with another one. -/
def againSource : List Text.Glyph :=
  ("package p\ntype T int\ntype U int\n" ++
    "const A T = 1\nconst B T = 2\nconst A U = 3\n").toList.map .char

/-- What the file says. -/
def againFile : SourceFile :=
  ⟨some "p", [⟨"T", false, some "int"⟩, ⟨"U", false, some "int"⟩],
    [[⟨["A"], some ⟨some (some "T"), [.int "1"]⟩, ⟨3, 13⟩⟩],
      [⟨["B"], some ⟨some (some "T"), [.int "2"]⟩, ⟨4, 13⟩⟩],
      [⟨["A"], some ⟨some (some "U"), [.int "3"]⟩, ⟨5, 13⟩⟩]], []⟩

theorem parse_againSource : SourceFile.parse againSource = some againFile := by
  decide +kernel

def againSources : Sources := [("a.go", againSource)]

/-- The first and the last declaration of the name. -/
def againFirst : ConstantDecl := ⟨"A", some (.int "1"), some "T", 0, "a.go", 0, none⟩

def againLast : ConstantDecl := ⟨"A", some (.int "3"), some "U", 0, "a.go", 2, none⟩

/-- The types and constants of the file. -/
def againTypes : Types := ⟨[("T", none), ("U", none)], [("T", "int"), ("U", "int")]⟩

def againConstants : List ConstantDecl :=
  [againFirst, ⟨"B", some (.int "2"), some "T", 0, "a.go", 1, none⟩, againLast]

/-- The table of the file. -/
def againTable : SymbolTable where
  package := .str "p"
  types := [⟨.str "T", .null⟩, ⟨.str "U", .null⟩]
  constants := [
    ⟨.str "A", .str "U", .exact (.whole 3), .str "a.go", .int 0, .null⟩,
    ⟨.str "B", .str "T", .exact (.whole 2), .str "a.go", .int 1, .null⟩,
    ⟨.str "A", .str "U", .exact (.whole 3), .str "a.go", .int 2, .null⟩]

theorem declaredInAll_againFile : declaredInAll [("a.go", againFile)] = againConstants := by
  decide +kernel

theorem filesOf_againSources : FilesOf againSources [("a.go", againFile)] := by
  refine ⟨by decide, by decide, fun unit file hmem => ?_⟩
  cases List.mem_singleton.mp hmem
  exact ⟨_, List.mem_cons_self, parse_againSource⟩

theorem load_againSources : load againSources = .ok againTable := by
  rw [load, againSources, parseAll_singleton parse_againSource rfl, ok_bind]
  rfl

/-- A constant is kept apart in the type of the last declaration of its name. -/
theorem keptApart_againLast :
    FilesOf againSources [("a.go", againFile)] ∧
      againLast ∈ declaredInAll [("a.go", againFile)] ∧
      againFirst ∈ declaredInAll [("a.go", againFile)] ∧ againFirst.name = againLast.name ∧
      againLast.type = some "U" ∧ againFirst.type = some "T" ∧ "U" ≠ "T" ∧
      KeptApart [("a.go", againFile)] againLast
        (load againSources >>= fun table => Enum.resolve table ⟨"U", "", false⟩) := by
  have hlast : againLast ∈ declaredInAll [("a.go", againFile)] := by
    rw [declaredInAll_againFile]
    exact .tail _ (.tail _ (.head _))
  have hfirst : againFirst ∈ declaredInAll [("a.go", againFile)] := by
    rw [declaredInAll_againFile]
    exact .head _
  refine ⟨filesOf_againSources, hlast, hfirst, rfl, rfl, rfl, by decide, ?_⟩
  refine (keptApart_iff filesOf_againSources hlast hfirst rfl rfl rfl (by decide) rfl).mpr ?_
  intro types table htypes hload
  rw [declaredInAll_againFile]
  exact .inr (.inl ⟨againLast, "U", rfl, rfl, rfl⟩)

/-- Neither of the types of the table is an alias. -/
theorem handle_againTable {name : String} (h : name = "T" ∨ name = "U") :
    againTable.handle? (.str name) = some ⟨.str name, .null⟩ := by
  rcases h with rfl | rfl <;> simp [handle?, againTable, handleIn?, Json.same_str]

theorem canonical_againTable {name : String} (h : name = "T" ∨ name = "U") :
    againTable.canonical (.str name) = .ok (.str name) := by
  simp [SymbolTable.canonical, canonicalFrom, handle_againTable h, isNull, Json.isKey]

/-- One record has the type `T`, and it is not that of the name that is declared again. -/
theorem recordsOf_againTable :
    Enum.recordsOf againTable (.str "T") againTable.constants =
      .ok [⟨.str "B", .str "T", .exact (.whole 2), .str "a.go", .int 1, .null⟩] := by
  have hasType {owner : String} (ho : owner = "T" ∨ owner = "U") {r : ConstantRecord}
      (hr : r.type = .str owner) :
      Enum.hasType againTable (.str "T") r = .ok (owner == "T") := by
    rw [Enum.hasType, hr, isNull_str, canonical_againTable ho]
    exact congrArg Except.ok (Json.same_str _ _)
  change Enum.recordsOf againTable (.str "T") [_, _, _] = _
  rw [Enum.recordsOf, hasType (.inr rfl) rfl, Enum.recordsOf, hasType (.inl rfl) rfl,
    Enum.recordsOf, hasType (.inr rfl) rfl]
  rfl

/-- The constant `A` of the type `T` has the value 1.  The type is resolved without it, since the
name is declared again with the type `U`: no failure tells of it, and the other constant of the type
stands alone. -/
theorem redeclared_constant_left_out :
    FilesOf againSources [("a.go", againFile)] ∧ Types.ofFiles [againFile] = .ok againTypes ∧
      againFirst ∈ declaredInAll [("a.go", againFile)] ∧
      againLast ∈ declaredInAll [("a.go", againFile)] ∧ againLast.name = againFirst.name ∧
      againFirst.type = some "T" ∧ againLast.type = some "U" ∧
      valueOf againTypes (declaredInAll [("a.go", againFile)]) againFirst =
        .ok (.exact (.whole 1), some "T") ∧
      (load againSources >>= fun table => Enum.resolve table ⟨"T", "", false⟩) =
        .ok [⟨.str "B", 2, .str "B"⟩] ∧
      ¬ KeptApart [("a.go", againFile)] againFirst
        (load againSources >>= fun table => Enum.resolve table ⟨"T", "", false⟩) := by
  have hresolve : (load againSources >>= fun table => Enum.resolve table ⟨"T", "", false⟩) =
      .ok [⟨.str "B", 2, .str "B"⟩] := by
    rw [load_againSources, ok_bind, Enum.resolve, Enum.constants, SymbolTable.lookup,
      handle_againTable (.inl rfl), canonical_againTable (.inl rfl),
      ordered_of_load filesOf_againSources load_againSources]
    simp only [ok_bind, recordsOf_againTable]
    rfl
  rw [hresolve, declaredInAll_againFile]
  refine ⟨filesOf_againSources, rfl, .head _, .tail _ (.tail _ (.head _)), rfl, rfl, rfl, rfl, rfl,
    ?_⟩
  rintro (⟨_, ⟨⟩⟩ | ⟨_, ⟨⟩, m, hm, hname, -⟩)
  cases List.mem_singleton.mp hm
  injection hname with hname
  exact absurd hname (by decide)

end Package
end EnumHelpers
