import EnumHelpers.Proofs.Package.Limits
import EnumHelpers.Proofs.Package.Typing

/-!
# Proofs — packages that are loaded

Sources that are texts, that are free of syntax errors and that agree on one package have types and
declared constants.  What can still go wrong is the evaluation of the constants: when one of them
comes to a number that cannot be held, there is no table at all; otherwise the table has an entry
for every constant, without a value for those whose evaluation is refused or leads back to itself.

* `exists_load_iff`: when there is a table.
-/

namespace EnumHelpers.Package
open Source

variable {unit package : String} {file : SourceFile} {files : List (String × SourceFile)}

/-! ### Declarations -/

theorem exists_ofFiles (h : ∀ p ∈ files, p.2.IsText) :
    ∃ types, Types.ofFiles (files.map Prod.snd) = .ok types := by
  have hspecs : ∀ spec ∈ (files.map Prod.snd).flatMap (·.types),
      ∃ target, spec.target = some target := by
    intro spec hspec
    obtain ⟨file, hfile, hmem⟩ := List.mem_flatMap.mp hspec
    obtain ⟨p, hp, rfl⟩ := List.mem_map.mp hfile
    exact (h p hp).types spec hmem
  rw [Types.ofFiles]
  generalize (files.map Prod.snd).flatMap (·.types) = specs at hspecs
  generalize ({} : Types) = types
  induction specs generalizing types with
  | nil => exact ⟨types, rfl⟩
  | cons spec rest ih =>
      rw [List.forall_mem_cons] at hspecs
      obtain ⟨target, htarget⟩ := hspecs.1
      have henter : types.enter spec = .ok (types.declare spec.name spec.isAlias target) := by
        rw [Types.enter, htarget]
      rw [List.foldlM_cons, henter, ok_bind]
      exact ih hspecs.2 _

theorem exists_notesOf {comments : List Comment}
    (h : ∀ c ∈ comments, ∃ text : List Char, c.glyphs = text.map .char) :
    ∃ notes, notesOf comments = .ok notes := by
  refine exists_mapM_eq_ok.mpr fun c hc => ?_
  obtain ⟨text, htext⟩ := h c hc
  exact ⟨_, by rw [htext, Text.textOfGlyphs_map]⟩

theorem exists_at (before : InForce) {spec : ConstSpec} (h : ∀ v ∈ spec.given, v.type ≠ some none) :
    ∃ inForce, before.at spec = .ok inForce := by
  unfold InForce.at
  split
  · exact ⟨_, rfl⟩
  · exact ⟨_, rfl⟩
  · exact ⟨_, rfl⟩
  · rename_i hgiven
    exact (h _ hgiven rfl).elim

theorem exists_ofGroup (unit : String) (notes : List Note) {specs : List ConstSpec}
    (h : ∀ spec ∈ specs, ∀ v ∈ spec.given, v.type ≠ some none) (before : InForce)
    (iota order : Nat) :
    ∃ decls, ofGroup unit notes before iota order specs = .ok decls := by
  induction specs generalizing before iota order with
  | nil => exact ⟨[], rfl⟩
  | cons spec rest ih =>
      rw [List.forall_mem_cons] at h
      obtain ⟨inForce, hat⟩ := exists_at before h.1
      obtain ⟨more, hmore⟩ := ih h.2 inForce (iota + 1) (order + spec.names.length)
      exact ⟨_, by rw [ofGroup, hat, ok_bind, hmore, ok_bind]⟩

theorem exists_ofGroups (unit : String) (notes : List Note) {groups : List (List ConstSpec)}
    (h : ∀ group ∈ groups, ∀ spec ∈ group, ∀ v ∈ spec.given, v.type ≠ some none) (order : Nat) :
    ∃ decls, ofGroups unit notes order groups = .ok decls := by
  induction groups generalizing order with
  | nil => exact ⟨[], rfl⟩
  | cons group rest ih =>
      rw [List.forall_mem_cons] at h
      obtain ⟨here, hhere⟩ := exists_ofGroup unit notes h.1 {} 0 order
      obtain ⟨more, hmore⟩ := ih h.2 (order + nameCount group)
      exact ⟨_, by rw [ofGroups, hhere, ok_bind, hmore, ok_bind]⟩

/-- The constants of files that are text are those that are read off by number. -/
theorem constantsOf_of_isText (h : ∀ p ∈ files, p.2.IsText) :
    constantsOf files = .ok (declaredInAll files) := by
  have hfiles : ∀ p ∈ files, ∃ decls, ofFile p.1 p.2 = .ok decls := by
    intro p hp
    obtain ⟨notes, hnotes⟩ := exists_notesOf (h p hp).comments
    obtain ⟨decls, hdecls⟩ := exists_ofGroups p.1 notes
      (fun group hgroup spec hspec v hv => ((h p hp).constants group hgroup spec hspec v hv).1) 0
    exact ⟨decls, by rw [ofFile, hnotes, ok_bind, hdecls]⟩
  obtain ⟨lists, hlists⟩ := exists_mapM_eq_ok.mpr hfiles
  have hconstants : constantsOf files = .ok lists.flatten := by
    rw [constantsOf, hlists, ok_bind]
  rw [hconstants, constantsOf_eq hconstants]

theorem mem_of_nearest? {group : List ConstSpec} {k : Nat} {v : ConstValues}
    (h : nearest? group k = some v) : ∃ spec ∈ group, spec.given = some v := by
  obtain ⟨spec, hmem, hgiven⟩ := List.exists_of_findSome?_eq_some h
  exact ⟨spec, List.mem_of_mem_take (List.mem_reverse.mp hmem), hgiven⟩

/-- The expressions of constants in files that are text are grammatical. -/
theorem grammatical_declaredInAll (h : ∀ p ∈ files, p.2.IsText) :
    Grammatical (declaredInAll files) := by
  intro decl hdecl e he
  obtain ⟨⟨unit, file⟩, hfile, hdecl⟩ := List.mem_flatMap.mp hdecl
  obtain ⟨⟨group, g⟩, hgroup, hdecl⟩ := List.mem_flatMap.mp hdecl
  obtain ⟨⟨spec, k⟩, -, hdecl⟩ := List.mem_flatMap.mp hdecl
  obtain ⟨⟨name, i⟩, -, hdecl⟩ := List.mem_filterMap.mp hdecl
  have hgroup := List.fst_mem_of_mem_zipIdx hgroup
  dsimp only at hdecl
  split at hdecl
  · cases hdecl
  · cases hdecl
    -- the expression is one of those that are given at or before the declaration in its group
    obtain ⟨v, hv, hexpr⟩ := Option.bind_eq_some_iff.mp he
    obtain ⟨given, hgiven, hv⟩ := mem_of_nearest? hv
    exact ((h _ hfile).constants group hgroup given hgiven v hv).2 e (List.mem_of_getElem? hexpr)

/-! ### Tables -/

theorem onePackage_of_forall {names : List String} (hne : names ≠ [])
    (h : ∀ name ∈ names, name = package) : onePackage names = .ok package := by
  have hdups : names.eraseDups = [package] := by
    obtain ⟨first, rest, rfl⟩ := List.exists_cons_of_ne_nil hne
    rw [List.forall_mem_cons] at h
    obtain ⟨rfl, hrest⟩ := h
    have hnone : rest.filter (fun b => !b == first) = [] := by
      rw [List.filter_eq_nil_iff]
      intro name hname
      simp [hrest name hname]
    rw [List.eraseDups_cons, hnone]
    rfl
  rw [onePackage, hdups]

/-- Sources with distinct names that are texts, free of syntax errors and of one package. -/
structure SourcesOf (sources : Sources) (package : String) : Prop where
  nonempty : sources ≠ []
  nodup : (OrderedMap.keys sources).Nodup
  isText : ∀ p ∈ sources, ∃ cs : List Char, p.2 = cs.map .char
  parsed : ∀ p ∈ sources, ∃ file, SourceFile.parse p.2 = some file ∧ file.package = some package

theorem sourcesOf_singleton {cs : List Char} (hparse : SourceFile.parse (cs.map .char) = some file)
    (hpackage : file.package = some package) : SourcesOf [(unit, cs.map .char)] package where
  nonempty := List.cons_ne_nil _ _
  nodup := List.nodup_singleton _
  isText := by
    rw [List.forall_mem_singleton]
    exact ⟨cs, rfl⟩
  parsed := by
    rw [List.forall_mem_singleton]
    exact ⟨file, hparse, hpackage⟩

variable {sources : Sources}

/-- Sources of one package are read, and agree on it. -/
theorem SourcesOf.parseAll (h : SourcesOf sources package) :
    ∃ parsed, Package.parseAll sources = .ok parsed ∧
      onePackage (parsed.map fun (_, package, _) => package) = .ok package := by
  have hrow : ∀ unit content, (unit, content) ∈ sorted sources →
      ∃ file, parseUnit unit content = .ok (package, file) := by
    intro unit content hp
    obtain ⟨file, hparse, hpackage⟩ := h.parsed _ (List.mem_mergeSort.mp hp)
    exact ⟨file, parseUnit_eq_ok hparse hpackage⟩
  have hall : ∃ parsed, Package.parseAll sources = .ok parsed := by
    refine exists_mapM_eq_ok.mpr ?_
    rintro ⟨unit, content⟩ hp
    obtain ⟨file, hfile⟩ := hrow unit content hp
    exact ⟨_, by dsimp only; rw [hfile, ok_bind]⟩
  obtain ⟨parsed, hparsed⟩ := hall
  refine ⟨parsed, hparsed, onePackage_of_forall ?_ ?_⟩
  · have hlength := (mapM_eq_ok hparsed).length_eq
    rw [sorted, List.length_mergeSort] at hlength
    rintro hnil
    rw [List.map_eq_nil_iff.mp hnil, List.length_nil, List.length_eq_zero_iff] at hlength
    exact h.nonempty hlength
  · intro name hname
    obtain ⟨row, hmem, rfl⟩ := List.mem_map.mp hname
    obtain ⟨⟨unit, content⟩, hp, heq⟩ := exists_of_mem_mapM hparsed hmem
    obtain ⟨file, hfile⟩ := hrow unit content hp
    dsimp only at heq
    rw [hfile, ok_bind] at heq
    cases heq
    rfl

/-- What is left to do when the sources are read. -/
theorem SourcesOf.load_eq (h : SourcesOf sources package) :
    ∃ files, FilesOf sources files ∧ load sources = tableOf package files := by
  obtain ⟨parsed, hparsed, hpackage⟩ := h.parseAll
  exact ⟨_, filesOf_parseAll h.nodup hparsed, by rw [load, hparsed, ok_bind, hpackage, ok_bind]⟩

theorem SourcesOf.isText_files (h : SourcesOf sources package) (hfiles : FilesOf sources files) :
    ∀ p ∈ files, p.2.IsText := by
  rintro ⟨unit, file⟩ hp
  obtain ⟨content, hmem, hparse⟩ := hfiles.parsed unit file hp
  obtain ⟨cs, hcs⟩ := h.isText _ hmem
  dsimp only at hcs
  rw [hcs] at hparse
  exact isText_of_parse hparse

/-- Constants are recorded in order, without a value when they are not evaluated. -/
theorem forall₂_of_recordAll {types : Types} {decls : List ConstantDecl}
    {records : List (ConstantDecl × Recorded × Option String)}
    (h : recordAll types decls {} decls = .ok records) :
    List.Forall₂ (fun decl r => r.name = .str decl.name ∧
      (r.value = .absent ↔ Unevaluated types decls decl.name)) decls (records.map recordOf) := by
  rw [recordAll_eq_alone decls sound_empty] at h
  rw [List.forall₂_map_right_iff]
  refine (mapM_eq_ok h).imp fun decl entry hentry => ?_
  obtain ⟨⟨value, type⟩, hrecorded, rfl⟩ := map_eq_ok.mp hentry
  refine ⟨rfl, ?_⟩
  rcases recorded_direct_cases hrecorded with ⟨hun, hvalue, -⟩ | ⟨hun, hvalue, -⟩
  · exact iff_of_true hvalue hun
  · exact iff_of_false hvalue hun

/-- **When a package is loaded.**  Sources with distinct names that are texts, free of syntax errors
and of one package have a table if and only if the evaluation of none of their constants comes to a
number that cannot be held: a literal with too many digits or out of range, or an integer that is
shifted up by too much (`Exceeds`).  The table has an entry for each constant in order, without a
value if and only if its evaluation is refused or leads back to itself (`Unevaluated`). -/
theorem exists_load_iff (h : SourcesOf sources package) :
    ∃ files types, FilesOf sources files ∧ Types.ofFiles (files.map Prod.snd) = .ok types ∧
      ((∃ table, load sources = .ok table ∧
          List.Forall₂ (fun decl r => r.name = .str decl.name ∧
              (r.value = .absent ↔ Unevaluated types (declaredInAll files) decl.name))
            (declaredInAll files) table.constants) ↔
        ∀ decl ∈ declaredInAll files, ∀ p,
          Reaches types (declaredInAll files) (.ofName decl.name) p →
            ¬ Exceeds types (declaredInAll files) p) := by
  obtain ⟨files, hfiles, hload⟩ := h.load_eq
  have htext := h.isText_files hfiles
  obtain ⟨types, htypes⟩ := exists_ofFiles htext
  refine ⟨files, types, hfiles, htypes, ?_⟩
  rw [← exists_recordAll_iff (grammatical_declaredInAll htext), hload, tableOf, htypes, ok_bind,
    constantsOf_of_isText htext, ok_bind]
  constructor
  · rintro ⟨table, htable, -⟩
    obtain ⟨records, hrecords, -⟩ := bind_eq_ok.mp htable
    exact ⟨records, hrecords⟩
  · rintro ⟨records, hrecords⟩
    exact ⟨_, by rw [hrecords, ok_bind], forall₂_of_recordAll hrecords⟩

/-- The source with a conversion that is refused is loaded, when no number in it is too large. -/
theorem exists_load_iff_lengthSources : SourcesOf lengthSources "p" ∧
    ((∃ table, load lengthSources = .ok table ∧
        List.Forall₂ (fun decl r => r.name = .str decl.name ∧
            (r.value = .absent ↔ Unevaluated lengthTypes lengthConstants decl.name))
          lengthConstants table.constants) ↔
      ∀ decl ∈ lengthConstants, ∀ p, Reaches lengthTypes lengthConstants (.ofName decl.name) p →
        ¬ Exceeds lengthTypes lengthConstants p) := by
  have hsources : SourcesOf lengthSources "p" := sourcesOf_singleton parse_lengthSource rfl
  obtain ⟨files, types, hfiles, htypes, h⟩ := exists_load_iff hsources
  rw [hfiles.unique filesOf_lengthSources] at htypes h
  cases htypes.symm.trans ofFiles_lengthFile
  rw [declaredInAll_lengthFile] at h
  exact ⟨hsources, h⟩

/-! ### A number that stops a package -/

/-- A file with a hexadecimal float that is out of range. -/
def largeSource : List Text.Glyph := "package p\nconst A = 0x1p9999\n".toList.map .char

/-- What the file says. -/
def largeFile : SourceFile :=
  ⟨some "p", [], [[⟨["A"], some ⟨none, [.float "0x1p9999"]⟩, ⟨1, 18⟩⟩]], []⟩

theorem parse_largeSource : SourceFile.parse largeSource = some largeFile := by
  decide +kernel

/-- The file is of one package and free of syntax errors, and there is no table, since its constant
is out of range. -/
theorem large_float_stops_load : SourcesOf [("a.go", largeSource)] "p" ∧
    load [("a.go", largeSource)] = .error (.ofConstant (.fault .outOfRange)) := by
  refine ⟨sourcesOf_singleton parse_largeSource rfl, ?_⟩
  rw [load, parseAll_singleton parse_largeSource rfl, ok_bind]
  rfl

end EnumHelpers.Package
