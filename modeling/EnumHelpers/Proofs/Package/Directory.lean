import EnumHelpers.Package.Directory
import EnumHelpers.Proofs.File.Tree
import EnumHelpers.Proofs.Package.Declarations

/-!
# Proofs — the package in a directory

An entry of a directory is *left out* at a target when it is a directory itself, when its name is
not that of a source file, is that of a test or does not select the target, or when its constraint
is false there (`LeftOut`).  What is left after these are dropped, in the order of its names, is all
that the load of the directory comes from (`loadDirectory_eq`): so the entries that are left out may
hold anything.

A failure to load a directory may name it.  Told without the directory (`DirectoryFault`), two
directories that differ in what is left out only have one outcome.

* `loadDirectory_of_listed`: two directories that differ in what is left out only are loaded alike,
  and their table is that of the files that are not left out.
-/

namespace EnumHelpers.Package
open File OrderedMap

variable {target : Target} {tree : Tree} {directory : Path} {entry : String × Node}
  {entries : List (String × Node)}

/-! ### Entries that are left out -/

/-- An entry of a directory that is no file of the package at a target, whatever else it holds. -/
inductive LeftOut (target : Target) : String × Node → Prop where
  | directory (name : String) : LeftOut target (name, .directory)
  | noSource {name : String} (node : Node) (h : ¬ ".go".toList <:+ name.toList) :
      LeftOut target (name, node)
  | test {name : String} (node : Node) (h : "_test.go".toList <:+ name.toList) :
      LeftOut target (name, node)
  | platform {name : String} (node : Node) (h : target.matchesFileName name = false) :
      LeftOut target (name, node)
  | constraint {name line : String} {content : List Text.Glyph} {c : Constraint}
      (hline : Constraint.lineOf (Text.replacedText content) = some line)
      (hparse : Constraint.parse line = .ok c) (hfalse : c.holds target.tags = false) :
      LeftOut target (name, .file content)

theorem endsWith_iff {trailing text : String} :
    Target.endsWith trailing text = true ↔ trailing.toList <:+ text.toList :=
  List.isSuffixOf_iff_suffix

theorem isSelected_iff : isSelected target entry = true ↔
    entry.2 ≠ .directory ∧ ".go".toList <:+ entry.1.toList ∧
      ¬ "_test.go".toList <:+ entry.1.toList ∧ target.matchesFileName entry.1 = true := by
  rw [isSelected, Bool.and_eq_true, Bool.and_eq_true, Bool.and_eq_true, bne_iff_ne, endsWith_iff,
    Bool.not_eq_true', ← Bool.not_eq_true, endsWith_iff, and_assoc, and_assoc]

/-- A constraint that is read rules a file out when it is false. -/
theorem matchesSource_eq_false_iff {unit source : String} :
    target.matchesSource unit source = .ok false ↔
      ∃ line c, Constraint.lineOf source = some line ∧ Constraint.parse line = .ok c ∧
        c.holds target.tags = false := by
  rw [Target.matchesSource]
  split
  · rename_i hline
    rw [hline]
    exact ⟨nofun, fun ⟨_, _, h, _⟩ => nomatch h⟩
  · rename_i line hline
    rw [hline]
    split
    · rename_i c hparse
      refine ⟨fun h => ⟨line, c, rfl, hparse, Except.ok.inj h⟩, ?_⟩
      rintro ⟨_, _, ⟨⟩, hparse', hfalse⟩
      cases hparse.symm.trans hparse'
      rw [hfalse]
    · rename_i hparse
      refine ⟨nofun, ?_⟩
      rintro ⟨_, _, ⟨⟩, hparse', -⟩
      cases hparse.symm.trans hparse'

/-- Whether an entry of a directory is kept, not left out. -/
def isKept (target : Target) (entry : String × Node) : Bool :=
  isSelected target entry &&
    match entry.2 with
    | .file content => target.matchesSource entry.1 (Text.replacedText content) ≠ .ok false
    | _ => true

theorem isKept_iff : isKept target entry = true ↔ isSelected target entry = true ∧
    ∀ content, entry.2 = .file content →
      target.matchesSource entry.1 (Text.replacedText content) ≠ .ok false := by
  obtain ⟨name, node⟩ := entry
  rw [isKept, Bool.and_eq_true]
  refine and_congr_right' ?_
  dsimp only
  cases node with
  | directory | closed reason => exact ⟨nofun, fun _ => rfl⟩
  | file content =>
      rw [decide_eq_true_iff]
      refine ⟨?_, fun h => h content rfl⟩
      rintro h _ ⟨⟩
      exact h

theorem leftOut_iff : LeftOut target entry ↔ isKept target entry = false := by
  rw [← Bool.not_eq_true, isKept_iff, isSelected_iff]
  constructor
  · rintro (name | ⟨node, h⟩ | ⟨node, h⟩ | ⟨node, h⟩ | ⟨hline, hparse, hfalse⟩)
      ⟨⟨hdir, hgo, htest, hname⟩, hmatch⟩
    · exact hdir rfl
    · exact h hgo
    · exact htest h
    · exact absurd hname (h ▸ Bool.false_ne_true)
    · exact hmatch _ rfl (matchesSource_eq_false_iff.mpr ⟨_, _, hline, hparse, hfalse⟩)
  · obtain ⟨name, node⟩ := entry
    intro h
    by_contra hleft
    refine h ⟨⟨?_, ?_, ?_, ?_⟩, ?_⟩
    · rintro rfl
      exact hleft (.directory name)
    · by_contra hgo
      exact hleft (.noSource node hgo)
    · exact fun htest => hleft (.test node htest)
    · by_contra hname
      exact hleft (.platform node (Bool.not_eq_true _ ▸ hname))
    · rintro content rfl hmatch
      obtain ⟨line, c, hline, hparse, hfalse⟩ := matchesSource_eq_false_iff.mp hmatch
      exact hleft (.constraint hline hparse hfalse)

instance : DecidablePred (LeftOut target) := fun _ => decidable_of_iff _ leftOut_iff.symm

/-! ### What a directory comes to -/

/-- A failure to load the package in a directory, told without the directory. -/
inductive DirectoryFault where
  | noSources
  | unreadable (name reason : String)
  | other (failure : Failure)

/-- The failure for the directory. -/
def DirectoryFault.at (directory : Path) : DirectoryFault → Failure
  | .noSources => .resolution (.noSources directory.text)
  | .unreadable name reason =>
    .resolution (.unreadable (directory.join ⟨"", [name]⟩).text reason)
  | .other failure => failure

/-- What an entry adds to the sources; none when its constraint rules it out. -/
def offer (target : Target) : String × Node →
    Except DirectoryFault (Option (String × List Text.Glyph))
  | (name, .file content) =>
    match target.matchesSource name (Text.replacedText content) with
    | .ok true => .ok (some (name, content))
    | .ok false => .ok none
    | .error cause => .error (.other cause)
  | (name, .closed reason) => .error (.unreadable name reason)
  | (_, .directory) => .ok none

/-- The entries that the target selects by their names, in the order of these. -/
def ranked (target : Target) (entries : List (String × Node)) : List (String × Node) :=
  (entries.filter (isSelected target)).mergeSort fun a b => Settings.textLE a.1 b.1

/-- The entries that are kept, in the order of their names. -/
def kept (target : Target) (entries : List (String × Node)) : List (String × Node) :=
  (ranked target entries).filter (isKept target)

/-- Sources, of which there have to be some. -/
def notNone (sources : Sources) : Except DirectoryFault Sources :=
  if sources.isEmpty then .error .noSources else .ok sources

/-- The sources that entries come to, taken in order. -/
def gathered (target : Target) (entries : List (String × Node)) :
    Except DirectoryFault Sources := do
  let found ← entries.mapM (offer target)
  notNone (found.filterMap id)

/-- The table that entries come to, taken in order. -/
def outcomeOf (target : Target) (entries : List (String × Node)) :
    Except DirectoryFault SymbolTable := do
  let sources ← gathered target entries
  (load sources).mapError .other

/-- A directory of a tree in which every path stands once, with its entries. -/
structure Lists (tree : Tree) (directory : Path) (entries : List (String × Node)) : Prop where
  paths : (keys tree.nodes).Nodup
  found : ∃ steps, tree.find directory = .ok (steps, .directory) ∧ tree.entries steps = entries

theorem Lists.nodup (h : Lists tree directory entries) : (keys entries).Nodup := by
  obtain ⟨steps, -, rfl⟩ := h.found
  exact Tree.nodup_keys_entries h.paths steps

/-- What stands at the name of an entry of a directory. -/
theorem Lists.find (h : Lists tree directory entries) (hmem : entry ∈ entries)
    (hname : entry.1 ≠ "..") :
    ∃ steps, tree.find (directory.join ⟨"", [entry.1]⟩) = .ok (steps, entry.2) := by
  obtain ⟨steps, hfind, rfl⟩ := h.found
  exact ⟨_, Tree.find_join hfind hname ((Tree.mem_entries_iff h.paths).mp hmem)⟩

/-- A file that is selected by its name is read as its entry says. -/
theorem Lists.sourceIn_eq (h : Lists tree directory entries) (hmem : entry ∈ entries)
    (hsel : isSelected target entry = true) :
    sourceIn tree target directory entry.1 = (offer target entry).mapError (·.at directory) := by
  obtain ⟨name, node⟩ := entry
  obtain ⟨hdir, hgo, -, -⟩ := isSelected_iff.mp hsel
  have hname : name ≠ ".." := by
    rintro rfl
    exact absurd (show ".go".toList <:+ "..".toList from hgo) (by decide)
  obtain ⟨steps, hfind⟩ := h.find hmem hname
  rw [sourceIn, Tree.read, hfind]
  cases node with
  | directory => exact (hdir rfl).elim
  | closed reason => rfl
  | file content =>
      dsimp only [offer]
      cases target.matchesSource name (Text.replacedText content) with
      | error cause => rfl
      | ok selected => cases selected <;> rfl

/-- An entry that is left out adds nothing. -/
theorem offer_of_not_isKept (hsel : isSelected target entry = true)
    (h : isKept target entry = false) : offer target entry = .ok none := by
  obtain ⟨name, node⟩ := entry
  rw [← Bool.not_eq_true, isKept_iff, not_and] at h
  have h := h hsel
  push Not at h
  obtain ⟨content, rfl, hmatch⟩ := h
  rw [offer, hmatch]

theorem unitNames_eq (target : Target) (entries : List (String × Node)) :
    unitNames target entries = (ranked target entries).map Prod.fst := by
  refine (List.map_mergeSort ?_).symm
  exact fun _ _ _ _ => rfl

theorem mem_ranked : entry ∈ ranked target entries ↔
    entry ∈ entries ∧ isSelected target entry = true := by
  rw [ranked, List.mem_mergeSort, List.mem_filter]

/-- What is left out can be dropped first. -/
theorem gathered_filter (h : ∀ entry ∈ entries, isSelected target entry = true) :
    gathered target (entries.filter (isKept target)) = gathered target entries := by
  have hrows : (entries.mapM (offer target)).map (List.filterMap id) =
      ((entries.filter (isKept target)).mapM (offer target)).map (List.filterMap id) :=
    mapM_filter fun entry hmem => offer_of_not_isKept (h entry hmem)
  calc gathered target (entries.filter (isKept target))
      = ((entries.filter (isKept target)).mapM (offer target)).map (List.filterMap id) >>=
          notNone := bind_map _ _ notNone
    _ = (entries.mapM (offer target)).map (List.filterMap id) >>= notNone := by rw [hrows]
    _ = gathered target entries := (bind_map _ _ notNone).symm

/-- The sources in a directory are those that its kept entries come to. -/
theorem Lists.sourcesIn_eq (h : Lists tree directory entries) (target : Target) :
    sourcesIn tree target directory =
      (gathered target (kept target entries)).mapError (·.at directory) := by
  obtain ⟨steps, hfind, hentries⟩ := h.found
  have hread : ∀ entry ∈ ranked target entries,
      (sourceIn tree target directory ∘ Prod.fst) entry =
        (offer target entry).mapError (·.at directory) :=
    fun entry hmem => h.sourceIn_eq (mem_ranked.mp hmem).1 (mem_ranked.mp hmem).2
  rw [kept, gathered_filter fun entry hmem => (mem_ranked.mp hmem).2, gathered, bind_mapError,
    mapM_mapError, sourcesIn, hfind]
  dsimp only
  rw [hentries, unitNames_eq, List.mapM_map, mapM_congr hread]
  refine congrArg _ (funext fun found => ?_)
  rw [notNone]
  split <;> rfl

/-- **A directory is loaded by its kept entries.** -/
theorem Lists.loadDirectory_eq (h : Lists tree directory entries) (target : Target) :
    loadDirectory tree target directory =
      (outcomeOf target (kept target entries)).mapError (·.at directory) := by
  rw [loadDirectory, h.sourcesIn_eq, outcomeOf, bind_mapError]
  refine congrArg _ (funext fun sources => ?_)
  cases load sources <;> rfl

/-! ### What is kept -/

theorem mem_kept : entry ∈ kept target entries ↔ entry ∈ entries ∧ ¬ LeftOut target entry := by
  rw [kept, List.mem_filter, mem_ranked, leftOut_iff, Bool.not_eq_false, and_assoc,
    and_congr_right_iff]
  exact fun _ => and_iff_right_of_imp fun h => (isKept_iff.mp h).1

theorem increasing_kept (target : Target) (h : (keys entries).Nodup) :
    ((kept target entries).map Prod.fst).Pairwise (· < ·) := by
  have hsel : ((entries.filter (isSelected target)).map Prod.fst).Nodup :=
    h.sublist (List.filter_sublist.map Prod.fst)
  exact (Settings.increasing_mergeSort hsel).sublist (List.filter_sublist.map Prod.fst)

theorem nodup_of_increasing {α : Type} {xs : List (String × α)}
    (h : (xs.map Prod.fst).Pairwise (· < ·)) : (keys xs).Nodup :=
  h.imp String.ne_of_lt

/-- What is kept of a directory is told by the entries that are not left out. -/
theorem kept_congr {entries' : List (String × Node)} (h : (keys entries).Nodup)
    (h' : (keys entries').Nodup)
    (hsame : ∀ entry, ¬ LeftOut target entry → (entry ∈ entries ↔ entry ∈ entries')) :
    kept target entries = kept target entries' := by
  have hkept := increasing_kept target h
  have hkept' := increasing_kept target h'
  refine Settings.eq_of_increasing ?_ hkept hkept'
  refine (List.perm_ext_iff_of_nodup (nodup_of_increasing hkept).of_map
    (nodup_of_increasing hkept').of_map).mpr fun entry => ?_
  rw [mem_kept, mem_kept]
  exact and_congr_left fun hkeep => hsame entry hkeep

/-- A source as an entry of a directory. -/
def fileEntry (source : String × List Text.Glyph) : String × Node := (source.1, .file source.2)

/-- What is kept and can be read is kept as a source. -/
theorem offer_eq_ok (hkept : isKept target entry = true)
    {found : Option (String × List Text.Glyph)} (h : offer target entry = .ok found) :
    ∃ source, found = some source ∧ entry = fileEntry source := by
  obtain ⟨name, node⟩ := entry
  obtain ⟨hsel, hmatch⟩ := isKept_iff.mp hkept
  cases node with
  | directory => exact ((isSelected_iff.mp hsel).1 rfl).elim
  | closed reason => cases h
  | file content =>
      rw [offer] at h
      split at h
      · cases h
        exact ⟨(name, content), rfl, rfl⟩
      · rename_i hfalse
        exact (hmatch content rfl hfalse).elim
      · cases h

/-- The sources that kept entries come to are these entries. -/
theorem map_fileEntry (hkept : ∀ entry ∈ entries, isKept target entry = true)
    {found : List (Option (String × List Text.Glyph))}
    (h : entries.mapM (offer target) = .ok found) :
    (found.filterMap id).map fileEntry = entries := by
  have hrows := mapM_eq_ok h
  clear h
  induction hrows with
  | nil => rfl
  | cons hfirst _ ih =>
      rw [List.forall_mem_cons] at hkept
      obtain ⟨source, rfl, rfl⟩ := offer_eq_ok hkept.1 hfirst
      exact congrArg (fileEntry source :: ·) (ih hkept.2)

/-- The files of a directory that are not left out, by their names. -/
structure FilesKept (target : Target) (entries : List (String × Node)) (sources : Sources) :
    Prop where
  nodup : (keys sources).Nodup
  mem_iff : ∀ name content, (name, content) ∈ sources ↔
    (name, .file content) ∈ entries ∧ ¬ LeftOut target (name, .file content)

/-- The sources that the kept entries come to are the files that are not left out. -/
theorem FilesKept.perm {sources : Sources} (h : FilesKept target entries sources)
    (hn : (keys entries).Nodup) {found : List (Option (String × List Text.Glyph))}
    (hfound : (kept target entries).mapM (offer target) = .ok found) :
    (found.filterMap id).Perm sources := by
  have hmap : (found.filterMap id).map fileEntry = kept target entries :=
    map_fileEntry (fun entry hmem => (List.mem_filter.mp hmem).2) hfound
  have hkeys : keys (found.filterMap id) = keys (kept target entries) := by
    rw [← hmap, keys, keys, List.map_map]
    rfl
  have hnodup : (keys (found.filterMap id)).Nodup := by
    rw [hkeys]
    exact nodup_of_increasing (increasing_kept target hn)
  refine (List.perm_ext_iff_of_nodup hnodup.of_map h.nodup.of_map).mpr ?_
  rintro ⟨name, content⟩
  have hinj : Function.Injective fileEntry := by
    rintro ⟨name, content⟩ ⟨name', content'⟩ ⟨⟩
    rfl
  rw [h.mem_iff, ← mem_kept, ← hmap]
  exact (List.mem_map_of_injective hinj).symm

/-- **What is left out does not matter.**  Two directories, of one tree or of two, whose entries are
the same but for those that are left out at a target are loaded alike: they have one outcome, in
which a failure may name the directory.  When that is a table, it is the table of the files that are
not left out, in whatever order they are given; and when these can all be read and their constraints
are in order, the outcome is theirs in any case. -/
theorem loadDirectory_of_listed {tree₁ tree₂ : Tree} {directory₁ directory₂ : Path}
    {entries₁ entries₂ : List (String × Node)} (h₁ : Lists tree₁ directory₁ entries₁)
    (h₂ : Lists tree₂ directory₂ entries₂)
    (hsame : ∀ entry, ¬ LeftOut target entry → (entry ∈ entries₁ ↔ entry ∈ entries₂)) :
    (∃ outcome : Except DirectoryFault SymbolTable,
      loadDirectory tree₁ target directory₁ = outcome.mapError (·.at directory₁) ∧
      loadDirectory tree₂ target directory₂ = outcome.mapError (·.at directory₂)) ∧
    ∀ sources, FilesKept target entries₁ sources →
      (∀ table, loadDirectory tree₁ target directory₁ = .ok table → load sources = .ok table) ∧
      ((∀ entry ∈ entries₁, ¬ LeftOut target entry → ∃ content, entry.2 = .file content ∧
          target.matchesSource entry.1 (Text.replacedText content) = .ok true) →
        sources ≠ [] → loadDirectory tree₁ target directory₁ = load sources) := by
  have hload := h₁.loadDirectory_eq target
  refine ⟨⟨outcomeOf target (kept target entries₁), hload, ?_⟩, fun sources hsources => ⟨?_, ?_⟩⟩
  · rw [kept_congr h₁.nodup h₂.nodup hsame, h₂.loadDirectory_eq]
  · intro table htable
    rw [hload, mapError_eq_ok, outcomeOf] at htable
    obtain ⟨given, hgiven, htable⟩ := bind_eq_ok.mp htable
    obtain ⟨found, hfound, hgiven⟩ := bind_eq_ok.mp hgiven
    have hperm := hsources.perm h₁.nodup hfound
    rw [notNone] at hgiven
    split at hgiven
    · cases hgiven
    · cases hgiven
      rw [← load_of_perm hperm ((hperm.map Prod.fst).nodup_iff.mpr hsources.nodup)]
      exact mapError_eq_ok.mp htable
  · intro hread hne
    have hoffers : ∀ entry ∈ kept target entries₁, ∃ found, offer target entry = .ok found := by
      rintro ⟨name, node⟩ hmem
      obtain ⟨hmem, hkeep⟩ := mem_kept.mp hmem
      obtain ⟨content, rfl, hmatch⟩ := hread _ hmem hkeep
      exact ⟨_, by rw [offer, hmatch]⟩
    obtain ⟨found, hfound⟩ := exists_mapM_eq_ok.mpr hoffers
    have hperm := hsources.perm h₁.nodup hfound
    have hsome : (found.filterMap id).isEmpty = false := by
      rw [List.isEmpty_eq_false_iff]
      rintro hnil
      exact hne (hnil ▸ hperm).nil_eq.symm
    rw [hload, outcomeOf, gathered, hfound, ok_bind, notNone, hsome, if_neg Bool.false_ne_true,
      ok_bind, load_of_perm hperm ((hperm.map Prod.fst).nodup_iff.mpr hsources.nodup)]
    cases load sources <;> rfl

/-- A directory with two files. -/
def plainTree : Tree := ⟨[], [(["p"], .directory), (["p", "a.go"], .file plainSource),
  (["p", "b.go"], .file blankSource)]⟩

/-- The same files in a directory beside the working directory, among others that are left out for
Linux. -/
def crowdedTree : Tree := ⟨["w"], [(["w"], .directory), (["q"], .directory),
  (["q", "ignored.go"], .file ("//go:build windows\n\npackage ((".toList.map .char)),
  (["q", "b.go"], .file blankSource), (["q", "b_test.go"], .closed "locked"),
  (["q", "a.go"], .file plainSource), (["q", "a_windows.go"], .file [.char '?']),
  (["q", "a.txt"], .file []), (["q", "more.go"], .directory)]⟩

theorem loadDirectory_crowdedTree :
    Lists plainTree ⟨"", ["p"]⟩ (plainTree.entries ["p"]) ∧
    Lists crowdedTree ⟨"/", ["q"]⟩ (crowdedTree.entries ["q"]) ∧
    (∀ entry, ¬ LeftOut ⟨"linux", "amd64"⟩ entry →
      (entry ∈ plainTree.entries ["p"] ↔ entry ∈ crowdedTree.entries ["q"])) ∧
    FilesKept ⟨"linux", "amd64"⟩ (plainTree.entries ["p"]) twoSources ∧
    ∃ table, load twoSources = .ok table ∧
      loadDirectory plainTree ⟨"linux", "amd64"⟩ ⟨"", ["p"]⟩ = .ok table ∧
      loadDirectory crowdedTree ⟨"linux", "amd64"⟩ ⟨"/", ["q"]⟩ = .ok table := by
  have hplain : Lists plainTree ⟨"", ["p"]⟩ (plainTree.entries ["p"]) :=
    ⟨by decide, ["p"], rfl, rfl⟩
  have hcrowded : Lists crowdedTree ⟨"/", ["q"]⟩ (crowdedTree.entries ["q"]) :=
    ⟨by decide, ["q"], rfl, rfl⟩
  have hkept : ∀ entry ∈ plainTree.entries ["p"], ¬ LeftOut ⟨"linux", "amd64"⟩ entry := by
    decide +kernel
  have hsame : ∀ entry, ¬ LeftOut ⟨"linux", "amd64"⟩ entry →
      (entry ∈ plainTree.entries ["p"] ↔ entry ∈ crowdedTree.entries ["q"]) := by
    have hsub : ∀ entry ∈ plainTree.entries ["p"], entry ∈ crowdedTree.entries ["q"] := by
      decide
    have hrest : ∀ entry ∈ crowdedTree.entries ["q"], ¬ LeftOut ⟨"linux", "amd64"⟩ entry →
        entry ∈ plainTree.entries ["p"] := by
      decide +kernel
    exact fun entry hkeep => ⟨hsub entry, fun hmem => hrest entry hmem hkeep⟩
  have hentries : plainTree.entries ["p"] = twoSources.map fileEntry := rfl
  have hfiles : FilesKept ⟨"linux", "amd64"⟩ (plainTree.entries ["p"]) twoSources := by
    refine ⟨by decide, fun name content => ?_⟩
    rw [and_iff_left_of_imp (hkept _), hentries, List.mem_map]
    constructor
    · exact fun hmem => ⟨_, hmem, rfl⟩
    · rintro ⟨⟨_, _⟩, hmem, ⟨⟩⟩
      exact hmem
  obtain ⟨⟨outcome, hleft, hright⟩, hgives⟩ := loadDirectory_of_listed hplain hcrowded hsame
  obtain ⟨table, htable⟩ := load_twoSources
  have hload : loadDirectory plainTree ⟨"linux", "amd64"⟩ ⟨"", ["p"]⟩ = .ok table := by
    rw [← htable]
    refine (hgives twoSources hfiles).2 ?_ (List.cons_ne_nil _ _)
    have hall : ∀ source ∈ twoSources, Target.matchesSource ⟨"linux", "amd64"⟩ source.1
        (Text.replacedText source.2) = .ok true := by
      decide +kernel
    intro entry hmem _
    obtain ⟨source, hsource, rfl⟩ := List.mem_map.mp (hentries ▸ hmem)
    exact ⟨source.2, rfl, hall source hsource⟩
  rw [hleft, mapError_eq_ok] at hload
  refine ⟨hplain, hcrowded, hsame, hfiles, table, htable, ?_, ?_⟩
  · rw [hleft, hload]
    rfl
  · rw [hright, hload]
    rfl

end EnumHelpers.Package
