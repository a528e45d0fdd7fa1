import EnumHelpers.Proofs.Json.Shown
import EnumHelpers.Symbol.Document

/-!
# Proofs — which documents are read or refused

A document either gives a symbol table, or is refused, or stops the program (`Stops`).  It stops
where its types or constants are a value without items, where the first entry that declares nothing
is too long for a message, and where the name of a type is a list or an object.

* `answered_field_iff`: the fields of a document that are read or refused.
* `ofJson_answered_iff`: the documents that are read or refused.
-/

namespace EnumHelpers.SymbolTable

variable {α β : Type} {fields : OrderedMap String Json} {key : String}

/-! ### Answers -/

/-- A computation has an outcome, or is refused as a document is. -/
def Answered (x : Except Failure α) : Prop :=
  (∃ a, x = .ok a) ∨ ∃ fault, x = .error (.resolution fault)

theorem answered_ok (a : α) : Answered (.ok a : Except Failure α) := .inl ⟨a, rfl⟩

theorem answered_refused (fault : ResolutionFault) :
    Answered (.error (.resolution fault) : Except Failure α) := .inr ⟨fault, rfl⟩

theorem not_answered_wrongKind : ¬ Answered (.error .wrongKind : Except Failure α) := by
  rintro (⟨a, ⟨⟩⟩ | ⟨fault, ⟨⟩⟩)

/-- Two computations are answered if the first one is, and the second one on its outcome. -/
theorem answered_bind_iff {x : Except Failure α} {f : α → Except Failure β} :
    Answered (x >>= f) ↔ Answered x ∧ ∀ a, x = .ok a → Answered (f a) := by
  cases x with
  | ok a =>
      rw [ok_bind]
      refine ⟨fun h => ⟨answered_ok a, ?_⟩, fun h => h.2 a rfl⟩
      rintro _ ⟨⟩
      exact h
  | error cause =>
      constructor
      · rintro (⟨b, ⟨⟩⟩ | ⟨fault, ⟨⟩⟩)
        exact ⟨answered_refused fault, nofun⟩
      · rintro ⟨⟨a, ⟨⟩⟩ | ⟨fault, ⟨⟩⟩, -⟩
        exact answered_refused fault

theorem answered_bind_ok_iff {x : Except Failure α} {g : α → β} :
    Answered (x >>= fun a => .ok (g a)) ↔ Answered x := by
  rw [answered_bind_iff]
  exact ⟨And.left, fun h => ⟨h, fun a _ => answered_ok (g a)⟩⟩

/-! ### Entries -/

/-- An entry that declares a type: a text, or an object with a name. -/
def DeclaresType : Json → Prop
  | .str _ => True
  | .obj fields => (Json.field "name" fields).isGiven = true
  | _ => False

/-- An entry that declares a constant: an object with a name. -/
def DeclaresConstant : Json → Prop
  | .obj fields => ∃ name, OrderedMap.get? "name" fields = some name
  | _ => False

/-- An entry is read if it declares something, and otherwise refused unless it is too long. -/
structure Decides (Declares : Json → Prop) (read : Json → Except Failure α) : Prop where
  ok : ∀ entry, Declares entry → ∃ a, read entry = .ok a
  refuse : ∀ entry, ¬ Declares entry → ¬ (∃ a, read entry = .ok a) ∧
    (Answered (read entry) ↔ ¬ entry.TooLong)

theorem Decides.ok_iff {Declares : Json → Prop} {read : Json → Except Failure α}
    (h : Decides Declares read) (entry : Json) : (∃ a, read entry = .ok a) ↔ Declares entry :=
  ⟨fun hok => by_contra fun hno => (h.refuse entry hno).1 hok, h.ok entry⟩

/-- What refuses an entry fails, and is answered unless the entry is too long. -/
theorem refuse_iff {refuse : Except Failure α} (fault : String → ResolutionFault) (entry : Json)
    (h : refuse = (do
      let s ← Failure.shown entry
      .error (.resolution (fault s)))) :
    ¬ (∃ a, refuse = .ok a) ∧ (Answered refuse ↔ ¬ entry.TooLong) := by
  subst h
  rcases Failure.shown_cases entry with ⟨hlong, s, hs⟩ | ⟨hlong, cause, hs⟩
  · rw [hs, ok_bind]
    exact ⟨nofun, fun _ => hlong, fun _ => answered_refused _⟩
  · rw [hs]
    refine ⟨nofun, ?_, fun hno => absurd hlong hno⟩
    rintro (⟨a, ⟨⟩⟩ | ⟨fault, ⟨⟩⟩)

theorem decides_typeOfEntry : Decides DeclaresType typeOfEntry := by
  constructor
  · intro entry h
    cases entry with
    | str s => exact ⟨_, rfl⟩
    | obj fields =>
        have h : (Json.field "name" fields).isGiven = true := h
        exact ⟨_, if_pos h⟩
    | _ => exact h.elim
  · intro entry h
    refine refuse_iff .badTypeEntry entry ?_
    cases entry with
    | str s => exact absurd trivial h
    | obj fields =>
        have h : ¬ (Json.field "name" fields).isGiven = true := h
        exact if_neg h
    | _ => rfl

theorem decides_constantOfEntry (position : Nat) :
    Decides DeclaresConstant (constantOfEntry position) := by
  constructor
  · intro entry h
    cases entry with
    | obj fields =>
        obtain ⟨name, h⟩ := h
        simp only [constantOfEntry, h]
        exact ⟨_, rfl⟩
    | _ => exact h.elim
  · intro entry h
    refine refuse_iff .badConstantEntry entry ?_
    cases entry with
    | obj fields =>
        cases hname : OrderedMap.get? "name" fields with
        | some name => exact absurd ⟨name, hname⟩ h
        | none => simp only [constantOfEntry, hname]
    | _ => rfl

/-! ### Rows of entries -/

/-- A row of entries of which the first that declares nothing is too long to be shown. -/
def Unshown (Declares : Json → Prop) (entries : List Json) : Prop :=
  ∃ before entry after, entries = before ++ entry :: after ∧ (∀ e ∈ before, Declares e) ∧
    ¬ Declares entry ∧ entry.TooLong

theorem unshown_cons_iff {Declares : Json → Prop} {entry : Json} {rest : List Json} :
    Unshown Declares (entry :: rest) ↔
      (¬ Declares entry ∧ entry.TooLong) ∨ (Declares entry ∧ Unshown Declares rest) := by
  constructor
  · rintro ⟨before, e, after, heq, hbefore, he⟩
    cases before with
    | nil =>
        cases heq
        exact .inl he
    | cons e' before =>
        cases heq
        rw [List.forall_mem_cons] at hbefore
        exact .inr ⟨hbefore.1, before, e, after, rfl, hbefore.2, he⟩
  · rintro (he | ⟨hentry, before, e, after, rfl, hbefore, he⟩)
    · exact ⟨[], entry, rest, rfl, List.forall_mem_nil _, he⟩
    · exact ⟨entry :: before, e, after, rfl, List.forall_mem_cons.mpr ⟨hentry, hbefore⟩, he⟩

/-- A row is read entry by entry, from a position on. -/
structure ReadsRow (Declares : Json → Prop) (read : Nat → Json → Except Failure α)
    (readRow : Nat → List Json → Except Failure (List α)) : Prop where
  decides : ∀ position, Decides Declares (read position)
  nil : ∀ position, readRow position [] = .ok []
  cons : ∀ position entry rest, readRow position (entry :: rest) = (do
    let a ← read position entry
    let more ← readRow (position + 1) rest
    .ok (a :: more))

theorem readsRow_types :
    ReadsRow DeclaresType (fun _ => typeOfEntry) fun _ entries => entries.mapM typeOfEntry where
  decides _ := decides_typeOfEntry
  nil _ := rfl
  cons _ _ _ := List.mapM_cons

theorem readsRow_constants : ReadsRow DeclaresConstant constantOfEntry constantsOfEntries where
  decides := decides_constantOfEntry
  nil _ := rfl
  cons _ _ _ := rfl

variable {Declares : Json → Prop} {read : Nat → Json → Except Failure α}
  {readRow : Nat → List Json → Except Failure (List α)}

/-- A row is read if all its entries declare something. -/
theorem ReadsRow.ok_iff (h : ReadsRow Declares read readRow) (position : Nat)
    (entries : List Json) :
    (∃ as, readRow position entries = .ok as) ↔ ∀ e ∈ entries, Declares e := by
  induction entries generalizing position with
  | nil =>
      rw [h.nil]
      exact ⟨fun _ => List.forall_mem_nil _, fun _ => ⟨[], rfl⟩⟩
  | cons entry rest ih =>
      rw [h.cons, exists_bind_bind_ok, ih, (h.decides position).ok_iff, List.forall_mem_cons]

/-- A row is answered unless the first of its entries that declares nothing is too long. -/
theorem ReadsRow.answered_iff (h : ReadsRow Declares read readRow) (position : Nat)
    (entries : List Json) : Answered (readRow position entries) ↔ ¬ Unshown Declares entries := by
  induction entries generalizing position with
  | nil =>
      rw [h.nil]
      refine ⟨?_, fun _ => answered_ok []⟩
      rintro - ⟨before, e, after, heq, -⟩
      exact List.append_ne_nil_of_right_ne_nil _ (List.cons_ne_nil _ _) heq.symm
  | cons entry rest ih =>
      rw [h.cons, answered_bind_iff, unshown_cons_iff]
      simp only [answered_bind_ok_iff, ih]
      by_cases hd : Declares entry
      · obtain ⟨a, ha⟩ := (h.decides position).ok entry hd
        rw [ha]
        constructor
        · rintro ⟨-, hrest⟩ (⟨hno, -⟩ | ⟨-, hun⟩)
          · exact hno hd
          · exact hrest a rfl hun
        · intro hno
          exact ⟨answered_ok a, fun _ _ hun => hno (.inr ⟨hd, hun⟩)⟩
      · obtain ⟨hfail, hanswered⟩ := (h.decides position).refuse entry hd
        rw [hanswered]
        constructor
        · rintro ⟨hshort, -⟩ (⟨-, hlong⟩ | ⟨hdeclares, -⟩)
          · exact hshort hlong
          · exact hd hdeclares
        · intro hno
          exact ⟨fun hlong => hno (.inl ⟨hd, hlong⟩), fun a ha => absurd ⟨a, ha⟩ hfail⟩

/-! ### Fields -/

/-- A value without items: null, a truth value or a number. -/
def Itemless : Json → Prop
  | .null | .bool _ | .int _ | .float _ => True
  | _ => False

theorem items_cases (v : Json) :
    (¬ Itemless v ∧ ∃ entries, items v = .ok entries) ∨
      (Itemless v ∧ items v = .error .wrongKind) := by
  cases v with
  | arr _ | str _ | obj _ => exact .inl ⟨id, _, rfl⟩
  | null | bool _ | int _ | float _ => exact .inr ⟨trivial, rfl⟩

/-- A field is there and without items. -/
def NoItems (key : String) (fields : OrderedMap String Json) : Prop :=
  ∃ v, OrderedMap.get? key fields = some v ∧ Itemless v

theorem fieldItems_cases (key : String) (fields : OrderedMap String Json) :
    (¬ NoItems key fields ∧ ∃ entries, fieldItems key fields = .ok entries) ∨
      (NoItems key fields ∧ fieldItems key fields = .error .wrongKind) := by
  rw [fieldItems, NoItems]
  cases OrderedMap.get? key fields with
  | none => exact .inl ⟨nofun, [], rfl⟩
  | some v =>
      rcases items_cases v with ⟨hv, h⟩ | ⟨hv, h⟩
      · refine .inl ⟨?_, h⟩
        rintro ⟨_, ⟨⟩, hno⟩
        exact hv hno
      · exact .inr ⟨⟨v, rfl, hv⟩, h⟩

/-- All the entries of a field declare something. -/
def AllDeclare (Declares : Json → Prop) (key : String) (fields : OrderedMap String Json) : Prop :=
  ∃ entries, fieldItems key fields = .ok entries ∧ ∀ e ∈ entries, Declares e

/-- A field at which the reading stops: it has no items, or the first of them that declares nothing
is too long to be shown. -/
def StopsAt (Declares : Json → Prop) (key : String) (fields : OrderedMap String Json) : Prop :=
  NoItems key fields ∨ ∃ entries, fieldItems key fields = .ok entries ∧ Unshown Declares entries

theorem ReadsRow.field_ok_iff (h : ReadsRow Declares read readRow) :
    (∃ as, (fieldItems key fields >>= readRow 0) = .ok as) ↔ AllDeclare Declares key fields := by
  simp only [bind_eq_ok]
  constructor
  · rintro ⟨as, entries, he, has⟩
    exact ⟨entries, he, (h.ok_iff 0 entries).mp ⟨as, has⟩⟩
  · rintro ⟨entries, he, hall⟩
    obtain ⟨as, has⟩ := (h.ok_iff 0 entries).mpr hall
    exact ⟨as, entries, he, has⟩

/-- **The entries of a field are read or refused**, unless the reading stops there. -/
theorem ReadsRow.answered_field_iff (h : ReadsRow Declares read readRow) :
    Answered (fieldItems key fields >>= readRow 0) ↔ ¬ StopsAt Declares key fields := by
  rw [answered_bind_iff, StopsAt]
  simp only [h.answered_iff]
  rcases fieldItems_cases key fields with ⟨hitems, entries, he⟩ | ⟨hitems, he⟩
  · rw [he]
    constructor
    · rintro ⟨-, hno⟩ (hni | ⟨_, ⟨⟩, hun⟩)
      · exact hitems hni
      · exact hno entries rfl hun
    · intro hno
      refine ⟨answered_ok entries, ?_⟩
      rintro _ ⟨⟩ hun
      exact hno (.inr ⟨entries, rfl, hun⟩)
  · rw [he]
    constructor
    · rintro ⟨hanswered, -⟩
      exact absurd hanswered not_answered_wrongKind
    · intro hno
      exact absurd (.inl hitems) hno

/-! ### Documents -/

/-- A type whose name is a list or an object. -/
def NamedByTree : Json → Prop
  | .obj fields => (Json.field "name" fields).isKey = false
  | _ => False

/-- A document that is neither read nor refused: it names a package, and its reading stops at its
types, or at its constants, or a type of it is named by a list or an object. -/
inductive Stops : Json → Prop where
  | types {fields : OrderedMap String Json}
      (package : (Json.field "package" fields).isGiven = true)
      (stops : StopsAt DeclaresType "types" fields) : Stops (.obj fields)
  | constants {fields : OrderedMap String Json}
      (package : (Json.field "package" fields).isGiven = true)
      (types : AllDeclare DeclaresType "types" fields)
      (stops : StopsAt DeclaresConstant "constants" fields) : Stops (.obj fields)
  | name {fields : OrderedMap String Json} {entries : List Json} {entry : Json}
      (package : (Json.field "package" fields).isGiven = true)
      (types : AllDeclare DeclaresType "types" fields)
      (constants : AllDeclare DeclaresConstant "constants" fields)
      (mem : fieldItems "types" fields = .ok entries ∧ entry ∈ entries)
      (tree : NamedByTree entry) : Stops (.obj fields)

/-- The name of a type is a key unless it is a list or an object. -/
theorem isKey_of_typeOfEntry {entry : Json} {handle : TypeHandle}
    (h : typeOfEntry entry = .ok handle) : handle.name.isKey = true ↔ ¬ NamedByTree entry := by
  have hd := (decides_typeOfEntry.ok_iff entry).mp ⟨handle, h⟩
  cases entry with
  | str s =>
      cases h
      exact ⟨fun _ => id, fun _ => rfl⟩
  | obj fields =>
      have hread : typeOfEntry (.obj fields) =
          .ok ⟨Json.field "name" fields, Json.field "alias_of" fields⟩ := if_pos hd
      rw [hread] at h
      cases h
      exact (Bool.not_eq_false _).symm.to_iff
  | _ => exact hd.elim

theorem all_isKey_iff {entries : List Json} {handles : List TypeHandle}
    (h : entries.mapM typeOfEntry = .ok handles) :
    handles.all (·.name.isKey) = true ↔ ∀ e ∈ entries, ¬ NamedByTree e := by
  have hrows := mapM_eq_ok h
  clear h
  induction hrows with
  | nil => exact ⟨fun _ => List.forall_mem_nil _, fun _ => rfl⟩
  | cons he _ ih =>
      rw [List.all_cons, Bool.and_eq_true, isKey_of_typeOfEntry he, List.forall_mem_cons]
      exact and_congr_right' ih

/-- A document that names a package is read field by field. -/
theorem ofJson_of_package (h : (Json.field "package" fields).isGiven = true) :
    ofJson (.obj fields) = (do
      let types ← fieldItems "types" fields >>= fun entries => entries.mapM typeOfEntry
      let constants ← fieldItems "constants" fields >>= constantsOfEntries 0
      if types.all (·.name.isKey) then .ok ⟨Json.field "package" fields, types, constants⟩
      else .error .wrongKind) := by
  simp only [ofJson, h, Bool.not_true, Bool.false_eq_true, if_false, bind_assoc]

/-- **A document is read or refused** if and only if its reading does not stop. -/
theorem ofJson_answered_iff (v : Json) :
    ((∃ t, ofJson v = .ok t) ∨ ∃ fault, ofJson v = .error (.resolution fault)) ↔ ¬ Stops v := by
  change Answered (ofJson v) ↔ ¬ Stops v
  cases v with
  | obj fields =>
      by_cases hp : (Json.field "package" fields).isGiven = true
      · rw [ofJson_of_package hp, answered_bind_iff, readsRow_types.answered_field_iff]
        simp only [answered_bind_iff, readsRow_constants.answered_field_iff]
        constructor
        · rintro ⟨htypes, hrest⟩ hstops
          cases hstops with
          | types _ stops => exact htypes stops
          | constants _ types stops =>
              obtain ⟨handles, hh⟩ := readsRow_types.field_ok_iff.mpr types
              exact (hrest handles hh).1 stops
          | name _ types constants mem tree =>
              obtain ⟨handles, hh⟩ := readsRow_types.field_ok_iff.mpr types
              obtain ⟨records, hr⟩ := readsRow_constants.field_ok_iff.mpr constants
              have hanswer := (hrest handles hh).2 records hr
              obtain ⟨entries, he, hh⟩ := bind_eq_ok.mp hh
              rw [mem.1] at he
              cases he
              have hkeys : ¬ handles.all (·.name.isKey) = true := fun hall =>
                (all_isKey_iff hh).mp hall _ mem.2 tree
              rw [if_neg hkeys] at hanswer
              exact not_answered_wrongKind hanswer
        · intro hno
          refine ⟨fun stops => hno (.types hp stops), fun handles hh => ?_⟩
          have htypes := readsRow_types.field_ok_iff.mp ⟨handles, hh⟩
          refine ⟨fun stops => hno (.constants hp htypes stops), fun records hr => ?_⟩
          have hconstants := readsRow_constants.field_ok_iff.mp ⟨records, hr⟩
          obtain ⟨entries, he, hh⟩ := bind_eq_ok.mp hh
          have hkeys : handles.all (·.name.isKey) = true := (all_isKey_iff hh).mpr
            fun entry hm tree => hno (.name hp htypes hconstants ⟨he, hm⟩ tree)
          rw [if_pos hkeys]
          exact answered_ok _
      · have hread : ofJson (.obj fields) = .error (.resolution .noPackageName) := by
          rw [Bool.not_eq_true] at hp
          simp only [ofJson, hp, Bool.not_false, if_true]
        rw [hread]
        refine ⟨fun _ hstops => ?_, fun _ => answered_refused _⟩
        cases hstops with
        | types package _ | constants package _ _ | name package _ _ _ _ => exact hp package
  | _ => exact ⟨fun _ => nofun, fun _ => answered_refused .tableNotObject⟩

/-- A document whose types are null, and one with a list for the name of a type, are neither read
nor refused. -/
theorem null_types_and_list_name_stop :
    ofJson (.obj [("package", .str "p"), ("types", .null)]) = .error .wrongKind ∧
    ofJson (.obj [("package", .str "p"),
      ("types", .arr [.obj [("name", .arr [.str "T"])]])]) = .error .wrongKind := ⟨rfl, rfl⟩

end EnumHelpers.SymbolTable
