import EnumHelpers.Proofs.Package.Declarations
import EnumHelpers.Proofs.Package.History

/-!
# Proofs — types without values

The type of an expression follows from the types of its names, whatever its value is: an operand
with a type gives it to the result, the left one before the right, and a conversion gives its own
(`typeIn`).  So a constant has a type before it has a value (`staticType`).

Evaluation finds value and type together, and when there is no value the type is lost with it.

* `type_of_direct`: a value that is found has the type that is found without it.
* `keptIn_iff_of_load`: a constant without a type in its declaration is kept in its type if and only
  if it has a value.
-/

namespace EnumHelpers.Package
open Source

/-! ### Types of expressions and names -/

/-- The type of an expression, when `names` says what types names have. -/
def typeIn (types : Types) (names : String → Option String) : Expr → Option String
  | .name s => names s
  | .paren e | .unary _ e => typeIn types names e
  | .binary op l r => resultType op (typeIn types names l) (typeIn types names r)
  | .conversion type _ => if types.isType type then some type else none
  | .int _ | .float _ | .rune _ | .string _ | .truth _ | .iota | .unsupported | .notText => none

/-- The type of a name, below the names that were passed: that of its declaration, or else that of
its expression.  A name that is passed again adds no type. -/
def typeOf (types : Types) (decls : List ConstantDecl) (path : List String) (name : String) :
    Option String :=
  match _ : declOf? decls name with
  | none => none
  | some decl =>
    if _ : name ∈ path then decl.type
    else decl.type.or
      (decl.expression.bind (typeIn types fun s => typeOf types decls (name :: path) s))
termination_by (ahead decls path).length
decreasing_by exact length_ahead_lt ‹_› ‹_›

/-- The type of a constant: that of its declaration, or else that of its expression. -/
def staticType (types : Types) (decls : List ConstantDecl) (decl : ConstantDecl) :
    Option String :=
  decl.type.or (decl.expression.bind (typeIn types (typeOf types decls [decl.name])))

variable {types : Types} {decls : List ConstantDecl} {path : List String} {name : String}
  {decl : ConstantDecl}

theorem typeOf_of_notMem (hd : declOf? decls name = some decl) (hp : name ∉ path) :
    typeOf types decls path name = decl.type.or
      (decl.expression.bind (typeIn types (typeOf types decls (name :: path)))) := by
  rw [typeOf]
  split
  · rename_i h
    rw [hd] at h
    cases h
  · rename_i h
    cases hd.symm.trans h
    rw [dif_neg hp]

/-- The type of a name is that of its declaration. -/
theorem typeOf_nil : typeOf types decls [] name =
    (declOf? decls name).bind (staticType types decls) := by
  cases hd : declOf? decls name with
  | none =>
      rw [typeOf]
      split
      · rfl
      · rename_i h
        rw [hd] at h
        cases h
  | some decl =>
      rw [typeOf_of_notMem hd List.not_mem_nil, (name_of_declOf? hd).1.symm]
      rfl

/-! ### Types of values -/

variable {names : String → Except Constant.Failure Typed} {namesType : String → Option String}

/-- The value of an expression has the type that it has without the value. -/
theorem type_of_evaluated {iota : Nat} {e : Expr} {t : Typed}
    (hnames : ∀ s t, names s = .ok t → t.type = namesType s)
    (h : evaluated types names iota e = .ok t) : t.type = typeIn types namesType e := by
  induction e generalizing t with
  | int text =>
      rw [evaluated_int] at h
      obtain ⟨n, -, ⟨⟩⟩ := bind_eq_ok.mp h
      rfl
  | float text =>
      rw [evaluated_float] at h
      obtain ⟨q, -, ⟨⟩⟩ := bind_eq_ok.mp h
      rfl
  | rune text =>
      rw [evaluated_rune] at h
      obtain ⟨n, -, ⟨⟩⟩ := bind_eq_ok.mp h
      rfl
  | string text | truth b | iota =>
      cases h
      rfl
  | unsupported | notText => cases h
  | name s => exact hnames s t h
  | paren e ih => exact ih h
  | unary op e ih =>
      rw [evaluated_unary] at h
      obtain ⟨operand, ho, h⟩ := bind_eq_ok.mp h
      obtain ⟨value, -, ⟨⟩⟩ := bind_eq_ok.mp h
      rw [typeIn, ← ih ho]
  | binary op l r ihl ihr =>
      rw [evaluated_binary] at h
      obtain ⟨left, hl, h⟩ := bind_eq_ok.mp h
      obtain ⟨right, hr, h⟩ := bind_eq_ok.mp h
      obtain ⟨value, -, ⟨⟩⟩ := bind_eq_ok.mp h
      rw [typeIn, ← ihl hl, ← ihr hr]
  | conversion type e ih =>
      rw [evaluated_conversion] at h
      rw [typeIn]
      split at h
      · rename_i ht
        obtain ⟨operand, -, ⟨⟩⟩ := bind_eq_ok.mp h
        rw [if_pos ht]
      · cases h

/-- **A value that is found has the type that is found without it.** -/
theorem type_of_direct (path : List String) (name : String) {t : Typed}
    (h : direct types decls path name = .ok t) : t.type = typeOf types decls path name := by
  cases hd : declOf? decls name with
  | none =>
      rw [direct_of_undeclared hd] at h
      cases h
  | some decl =>
      cases he : decl.expression with
      | none =>
          rw [direct_of_noExpression hd he] at h
          cases h
      | some e =>
          by_cases hp : name ∈ path
          · rw [direct_of_mem hd he hp] at h
            cases h
          · rw [direct_of_notMem hd he hp] at h
            obtain ⟨typed, htyped, rfl⟩ := map_eq_ok.mp h
            have hnames : ∀ s t, direct types decls (name :: path) s = .ok t →
                t.type = typeOf types decls (name :: path) s :=
              fun s _ hs => type_of_direct (name :: path) s hs
            rw [typeOf_of_notMem hd hp, he, Option.bind_some, ← type_of_evaluated hnames htyped]
            rfl
termination_by (ahead decls path).length
decreasing_by exact length_ahead_lt ‹_› ‹_›

/-! ### Records -/

/-- What is recorded for a constant: no value and the type of its declaration, or a value with the
type of the name. -/
theorem recorded_direct_cases {value : Recorded} {type : Option String}
    (h : recorded decl (direct types decls [] decl.name) = .ok (value, type)) :
    (Unevaluated types decls decl.name ∧ value = .absent ∧ type = decl.type) ∨
      (¬ Unevaluated types decls decl.name ∧ value ≠ .absent ∧
        type = typeOf types decls [] decl.name) := by
  rw [unevaluated_iff]
  cases hd : direct types decls [] decl.name with
  | ok typed =>
      rw [hd] at h
      cases h
      refine .inr ⟨?_, nofun, type_of_direct [] decl.name hd⟩
      rintro (⟨_, ⟨⟩⟩ | ⟨_, ⟨⟩⟩)
  | error cause =>
      rw [hd] at h
      cases cause with
      | refused cause =>
          cases h
          exact .inl ⟨.inl ⟨cause, rfl⟩, rfl, rfl⟩
      | cycle s =>
          cases h
          exact .inl ⟨.inr ⟨s, rfl⟩, rfl, rfl⟩
      | fault cause => cases h
      | notText => cases h

/-! ### Tables -/

theorem eq_some_of_optionalText {o : Option String} {s : String}
    (h : optionalText o = .str s) : o = some s := by
  cases o with
  | none => cases h
  | some text =>
      cases h
      rfl

/-- The names in the table of a package are texts. -/
theorem named_of_load {sources : Sources} {table : SymbolTable} (h : load sources = .ok table) :
    table.Named := by
  obtain ⟨parsed, -, h⟩ := bind_eq_ok.mp h
  obtain ⟨package, -, h⟩ := bind_eq_ok.mp h
  obtain ⟨types, -, h⟩ := bind_eq_ok.mp h
  obtain ⟨decls, -, h⟩ := bind_eq_ok.mp h
  obtain ⟨records, -, ⟨⟩⟩ := bind_eq_ok.mp h
  have hrecord : ∀ P : ConstantRecord → Prop, (∀ entry, P (recordOf entry)) →
      ∀ r ∈ records.map recordOf, P r := by
    intro P hP r hr
    obtain ⟨entry, -, rfl⟩ := List.mem_map.mp hr
    exact hP entry
  have htext : ∀ s, optionalText s = .null ∨ ∃ text, optionalText s = .str text := by
    rintro (_ | text)
    · exact .inl rfl
    · exact .inr ⟨text, rfl⟩
  refine ⟨⟨package, rfl⟩, fun handle hh => ?_, hrecord _ fun _ => ⟨_, rfl⟩,
    hrecord _ fun _ => htext _, hrecord _ fun _ => ⟨_, rfl⟩, hrecord _ fun _ => ⟨_, rfl⟩⟩
  obtain ⟨entry, -, rfl⟩ := List.mem_map.mp hh
  exact ⟨⟨_, rfl⟩, htext _⟩

/-- A record is kept in a type: it has the type, and when the type is resolved the record is among
its members. -/
def KeptIn (table : SymbolTable) (r : ConstantRecord) (type : String) : Prop :=
  r.type = .str type ∧ ∀ request members, request.name = type →
    Enum.resolve table request = .ok members → ∃ m ∈ members, m.name = r.name

/-- A record that has a type is not left out of it. -/
theorem keptIn_of_type {table : SymbolTable} (ht : table.Named) {r : ConstantRecord} {type : String}
    (hr : r ∈ table.constants) (htype : r.type = .str type) : KeptIn table r type := by
  refine ⟨htype, ?_⟩
  rintro request members rfl h
  obtain ⟨records, hc, hm⟩ := bind_eq_ok.mp h
  rw [Enum.constants_of_named ht] at hc
  obtain ⟨handle, -, hc⟩ := bind_eq_ok.mp hc
  split at hc
  · cases hc
  · cases hc
    -- what stands for the type of the record is what the type that is resolved stands for
    obtain ⟨target, htarget⟩ := ht.canonical request.name
    have hstands : Enum.standsFor table (.str target) r = true := by
      rw [Enum.standsFor, Enum.hasType, htype, SymbolTable.isNull_str, htarget]
      simp only [Bool.false_eq_true, if_false, ok_bind, Json.same_str, beq_self_eq_true]
      rfl
    have hmem : r ∈ Enum.recordsWith table request.name := by
      rw [Enum.recordsWith, htarget]
      exact List.mem_filter.mpr ⟨List.mem_mergeSort.mpr hr, hstands⟩
    have hname : r.name ∈ members.map Enum.Member.name := by
      rw [Enum.names_membersFrom hm]
      exact List.mem_map_of_mem hmem
    exact List.mem_map.mp hname

/-- What is recorded for a constant without a type in its declaration is kept in a type if and only
if the constant is evaluated and its name has the type.  One that is not evaluated has neither a
value nor a type. -/
theorem keptIn_iff_of_recorded {table : SymbolTable} (ht : table.Named) {value : Recorded}
    {type : Option String}
    (h : recorded decl (direct types decls [] decl.name) = .ok (value, type))
    (hr : recordOf (decl, value, type) ∈ table.constants) (hnone : decl.type = none) {T : String} :
    (KeptIn table (recordOf (decl, value, type)) T ↔
      ¬ Unevaluated types decls decl.name ∧ typeOf types decls [] decl.name = some T) ∧
    (Unevaluated types decls decl.name → value = .absent ∧ optionalText type = .null) := by
  rcases recorded_direct_cases h with ⟨hun, rfl, rfl⟩ | ⟨heval, -, rfl⟩
  · have hnull : optionalText decl.type = .null := by
      rw [hnone]
      rfl
    refine ⟨⟨fun hkept => ?_, fun hk => (hk.1 hun).elim⟩, fun _ => ⟨rfl, hnull⟩⟩
    exact Json.noConfusion (hnull.symm.trans hkept.1)
  · refine ⟨⟨fun hkept => ⟨heval, eq_some_of_optionalText hkept.1⟩, ?_⟩,
      fun hun => (heval hun).elim⟩
    rintro ⟨-, hT⟩
    exact keptIn_of_type ht hr (by rw [recordOf, hT]; rfl)

/-- **A constant is kept in its type if and only if it has a value.**  Of the constants of a
package, one by one with their records: a constant without a type in its declaration, whose
expression has a type `T`, is kept in `T` if and only if its evaluation is stopped neither by a
refusal nor by a cycle, and the last declaration of its name has the type `T` as well.  Otherwise,
when there is no value, the record has no type either, and no type that is resolved has it. -/
theorem keptIn_iff_of_load {sources : Sources} {files : List (String × SourceFile)}
    {table : SymbolTable} (hfiles : FilesOf sources files) (h : load sources = .ok table) :
    ∃ types, Types.ofFiles (files.map Prod.snd) = .ok types ∧
      List.Forall₂ (fun decl r => decl.type = none →
        ∀ T, staticType types (declaredInAll files) decl = some T →
          (KeptIn table r T ↔ ¬ Unevaluated types (declaredInAll files) decl.name ∧
            ∃ last, declOf? (declaredInAll files) decl.name = some last ∧
              staticType types (declaredInAll files) last = some T) ∧
          (Unevaluated types (declaredInAll files) decl.name →
            r.value = .absent ∧ r.type = .null ∧
              ∀ typeName records, Enum.constants table typeName = .ok records → r ∉ records))
        (declaredInAll files) table.constants := by
  have hnamed := named_of_load h
  obtain ⟨parsed, hparsed, h⟩ := bind_eq_ok.mp h
  obtain ⟨package, -, h⟩ := bind_eq_ok.mp h
  rw [(filesOf_parseAll hfiles.nodup hparsed).unique hfiles] at h
  obtain ⟨types, htypes, h⟩ := bind_eq_ok.mp h
  obtain ⟨decls, hdecls, h⟩ := bind_eq_ok.mp h
  obtain ⟨records, hrecords, h⟩ := bind_eq_ok.mp h
  have hconstants : table.constants = records.map recordOf := by
    cases h
    rfl
  rw [constantsOf_eq hdecls, recordAll_eq_alone _ sound_empty] at hrecords
  refine ⟨types, htypes, ?_⟩
  rw [hconstants, List.forall₂_map_right_iff]
  obtain ⟨hlength, hrows⟩ := List.forall₂_iff_zip.mp (mapM_eq_ok hrecords)
  refine List.forall₂_iff_zip.mpr ⟨hlength, fun {decl entry} hzip hnone T _ => ?_⟩
  have hmem : recordOf entry ∈ table.constants :=
    hconstants ▸ List.mem_map_of_mem (List.of_mem_zip hzip).2
  obtain ⟨⟨value, type⟩, hrecorded, rfl⟩ := map_eq_ok.mp (hrows hzip)
  obtain ⟨hkept, hnot⟩ := keptIn_iff_of_recorded hnamed hrecorded hmem hnone (T := T)
  rw [typeOf_nil, Option.bind_eq_some_iff] at hkept
  refine ⟨hkept, fun hun => ?_⟩
  obtain ⟨hvalue, hnull⟩ := hnot hun
  exact ⟨hvalue, hnull, fun typeName records hc hr => Enum.type_of_mem_constants hc _ hr hnull⟩

/-! ### A constant without a value -/

/-- A file with a type, a constant of the type and a conversion to it that is given no value. -/
def lengthSource : List Text.Glyph :=
  "package p\ntype K int\nconst A K = 1\nconst B = K(len(\"abc\"))\n".toList.map .char

/-- What the file says. -/
def lengthFile : SourceFile :=
  ⟨some "p", [⟨"K", false, some "int"⟩], [[⟨["A"], some ⟨some (some "K"), [.int "1"]⟩, ⟨2, 13⟩⟩],
    [⟨["B"], some ⟨none, [.conversion "K" (.conversion "len" (.string "\"abc\""))]⟩, ⟨3, 23⟩⟩]], []⟩

theorem parse_lengthSource : SourceFile.parse lengthSource = some lengthFile := by
  decide +kernel

def lengthSources : Sources := [("a.go", lengthSource)]

/-- The types and constants of the file. -/
def lengthTypes : Types := ⟨[("K", none)], [("K", "int")]⟩

def lengthConstants : List ConstantDecl := [
  ⟨"A", some (.int "1"), some "K", 0, "a.go", 0, none⟩,
  ⟨"B", some (.conversion "K" (.conversion "len" (.string "\"abc\""))), none, 0, "a.go", 1, none⟩]

/-- The table of the file. -/
def lengthTable : SymbolTable where
  package := .str "p"
  types := [⟨.str "K", .null⟩]
  constants := [
    ⟨.str "A", .str "K", .exact (.whole 1), .str "a.go", .int 0, .null⟩,
    ⟨.str "B", .null, .absent, .str "a.go", .int 1, .null⟩]

theorem declaredInAll_lengthFile : declaredInAll [("a.go", lengthFile)] = lengthConstants := by
  decide +kernel

theorem filesOf_lengthSources : FilesOf lengthSources [("a.go", lengthFile)] := by
  refine ⟨by decide, by decide, fun unit file hmem => ?_⟩
  cases List.mem_singleton.mp hmem
  exact ⟨_, List.mem_cons_self, parse_lengthSource⟩

theorem load_lengthSources : load lengthSources = .ok lengthTable := by
  rw [load, lengthSources, parseAll_singleton parse_lengthSource rfl, ok_bind]
  rfl

theorem ofFiles_lengthFile : Types.ofFiles [lengthFile] = .ok lengthTypes := rfl

/-- The second of the constants is kept in the type of its conversion if it has a value. -/
theorem keptIn_iff_lengthSources : FilesOf lengthSources [("a.go", lengthFile)] ∧
    load lengthSources = .ok lengthTable ∧
    (KeptIn lengthTable ⟨.str "B", .null, .absent, .str "a.go", .int 1, .null⟩ "K" ↔
      ¬ Unevaluated lengthTypes lengthConstants "B" ∧
        ∃ last, declOf? lengthConstants "B" = some last ∧
          staticType lengthTypes lengthConstants last = some "K") := by
  refine ⟨filesOf_lengthSources, load_lengthSources, ?_⟩
  obtain ⟨types, htypes, h⟩ := keptIn_iff_of_load filesOf_lengthSources load_lengthSources
  rw [declaredInAll_lengthFile] at h
  cases htypes.symm.trans ofFiles_lengthFile
  cases h with
  | cons _ h =>
      cases h with
      | cons h _ => exact (h rfl "K" (by decide)).1

theorem handle_lengthTable : lengthTable.handle? (.str "K") = some ⟨.str "K", .null⟩ := by
  simp [SymbolTable.handle?, lengthTable, SymbolTable.handleIn?, Json.same]

theorem recordsWith_lengthTable : Enum.recordsWith lengthTable "K" =
    [⟨.str "A", .str "K", .exact (.whole 1), .str "a.go", .int 0, .null⟩] := by
  have hbefore : lengthTable.constants.Pairwise RecordBefore := by
    refine List.pairwise_pair.mpr (recordBefore_of_before
      (a := lengthConstants[0]) (b := lengthConstants[1]) ?_ ⟨rfl, rfl⟩ ⟨rfl, rfl⟩)
    exact .inr ⟨rfl, by decide⟩
  have hordered : lengthTable.constants.mergeSort SymbolTable.mayPrecede = lengthTable.constants :=
    Except.ok.inj ((named_of_load load_lengthSources).ordered.symm.trans
      (ordered_of_pairwise hbefore))
  have canonical : lengthTable.canonical (.str "K") = .ok (.str "K") := by
    simp [SymbolTable.canonical, SymbolTable.canonicalFrom, handle_lengthTable, SymbolTable.isNull,
      Json.isKey]
  have stands (r) (hr : r.type = .str "K") : Enum.standsFor lengthTable (.str "K") r = true := by
    rw [Enum.standsFor, Enum.hasType, hr, canonical, ok_bind, Json.same_str]
    rfl
  rw [Enum.recordsWith, hordered, canonical]
  exact (List.filter_cons_of_pos (stands _ rfl)).trans (by rfl)

/-- The constant `B` has the type `K`, since it is a conversion to it, and it is not evaluated; its
record has neither a value nor the type, and the type is resolved without it. -/
theorem conversion_without_value_left_out :
    load lengthSources = .ok lengthTable ∧
      (∃ decl ∈ lengthConstants, decl.name = "B" ∧ decl.type = none ∧
        staticType lengthTypes lengthConstants decl = some "K") ∧
      (∃ r ∈ lengthTable.constants, r.name = .str "B" ∧ r.type = .null) ∧
      Enum.resolve lengthTable ⟨"K", "", false⟩ = .ok [⟨.str "A", 1, .str "A"⟩] := by
  refine ⟨load_lengthSources, ⟨_, List.mem_cons_of_mem _ List.mem_cons_self, rfl, rfl, by decide⟩,
    ⟨_, List.mem_cons_of_mem _ List.mem_cons_self, rfl, rfl⟩, ?_⟩
  rw [Enum.resolve, Enum.constants_of_named (named_of_load load_lengthSources),
    recordsWith_lengthTable, SymbolTable.lookup, handle_lengthTable]
  rfl

end EnumHelpers.Package
