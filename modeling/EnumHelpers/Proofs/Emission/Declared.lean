import EnumHelpers.Proofs.Emission.Naming
import EnumHelpers.Proofs.Emission.Warnings

/-!
# Proofs — the names that a file declares

The section of a type declares variables and functions of the whole package, and each of their names
is that of the type with something before or behind it.  The names are read off the lines of a text
(`declaredNames`), and a text that is tidied declares the same.

* `declaredNames_section`: what the section of a type declares, when its name is a word.
* `not_nodup_declaredNames_section`: when the name ends in a line feed, a name is declared twice.
* `declaredNames_of_code`: a file declares what its sections do.
-/

namespace EnumHelpers.Emission
open Text OrderedMap

/-! ### Reading the names -/

/-- The word that a text begins with. -/
def firstWord? (cs : List Char) : Option String :=
  let word := cs.takeWhile isWordChar
  if word.isEmpty then none else some (String.ofList word)

/-- The name that a line declares for the whole package: that of a variable or of a function.
Behind the keyword of a method stands a bracket. -/
def declaredBy? : Line → Option String
  | 'v' :: 'a' :: 'r' :: ' ' :: rest => firstWord? rest
  | 'f' :: 'u' :: 'n' :: 'c' :: ' ' :: rest => firstWord? rest
  | _ => none

/-- The names that the lines of a text declare for the whole package. -/
def declaredNames (text : String) : List String := (linesOf text).filterMap declaredBy?

theorem firstWord?_append {word rest : List Char} (hn : ∀ c ∈ word, isWordChar c = true)
    (hne : word ≠ []) (hrest : ∀ c, rest.head? = some c → isWordChar c = false) :
    firstWord? (word ++ rest) = some (String.ofList word) := by
  have hnone : rest.takeWhile isWordChar = [] := by
    cases rest with
    | nil => rfl
    | cons c rest => rw [List.takeWhile_cons, hrest c rfl, if_neg Bool.false_ne_true]
  rw [firstWord?, List.takeWhile_append_of_pos hn, hnone, List.append_nil,
    if_neg (by simpa using hne)]

/-- A line that begins otherwise than with a keyword declares nothing. -/
theorem declaredBy?_of_head {c : Char} (hv : c ≠ 'v') (hf : c ≠ 'f') (rest : List Char) :
    declaredBy? (c :: rest) = none := by
  unfold declaredBy?
  split
  · exact absurd (List.cons.inj ‹_›).1 hv
  · exact absurd (List.cons.inj ‹_›).1 hf
  · rfl

/-- Whether a front shows that the line declares nothing: it is that of a method, or begins
otherwise than with a keyword. -/
def isSilent : List Char → Bool
  | 'f' :: 'u' :: 'n' :: 'c' :: ' ' :: '(' :: _ => true
  | c :: _ => c != 'v' && c != 'f'
  | [] => false

theorem declaredBy?_of_isSilent {front : List Char} (h : isSilent front = true)
    (rest : List Char) : declaredBy? (front ++ rest) = none := by
  unfold isSilent at h
  split at h
  · rfl
  · rw [Bool.and_eq_true, bne_iff_ne, bne_iff_ne] at h
    exact declaredBy?_of_head h.1 h.2 _
  · cases h

theorem silent_ofList {cs : List Char} (h : declaredBy? cs = none) :
    declaredBy? (String.ofList cs).toList = none := by
  rw [String.toList_ofList, h]

theorem silent_ofList_append {cs : List Char} {b : String} (h : isSilent cs = true) :
    declaredBy? (String.ofList cs ++ b).toList = none := by
  rw [String.toList_append, String.toList_ofList]
  exact declaredBy?_of_isSilent h _

/-! ### The lines of a section -/

theorem declaredNames_of_oneLine {line : String} (h : OneLine line) :
    declaredNames line = (declaredBy? line.toList).toList := by
  rw [declaredNames, linesOf, splitAtChar_of_notMem h, List.filterMap_cons, List.filterMap_nil]
  cases declaredBy? line.toList <;> rfl

theorem flatMap_declaredNames_of_oneLine {lines : List String} (h : ∀ line ∈ lines, OneLine line) :
    lines.flatMap declaredNames = lines.filterMap fun line => declaredBy? line.toList := by
  rw [List.filterMap_eq_flatMap_toList]
  exact List.flatMap_congr fun line hl => declaredNames_of_oneLine (h line hl)

theorem declaredNames_lineFeed (a b : String) :
    declaredNames (a ++ "\n" ++ b) = declaredNames a ++ declaredNames b := by
  have hsplit : (a ++ "\n" ++ b).toList = a.toList ++ '\n' :: b.toList := by
    simp
  rw [declaredNames, linesOf, hsplit, splitAtChar_append, List.filterMap_append]
  rfl

theorem declaredNames_textOfLines (lines : List String) :
    declaredNames (textOfLines lines) = lines.flatMap declaredNames := by
  have hlines : (textOfLines lines).toList = (lines.map String.toList).flatMap (· ++ ['\n']) := by
    rw [toList_textOfLines, List.flatMap_map]
  rw [declaredNames, linesOf, hlines, splitAtChar_flatMap, List.filterMap_append, List.flatMap_map,
    List.filterMap_flatMap]
  exact List.append_nil _

/-- The empty lines between blocks declare nothing. -/
theorem flatMap_declaredNames_intercalate (blocks : List (List String)) :
    ([""].intercalate blocks).flatMap declaredNames =
      blocks.flatMap fun block => block.flatMap declaredNames := by
  have hempty : declaredNames "" = [] := by decide
  induction blocks with
  | nil => rfl
  | cons b rest ih =>
      cases rest with
      | nil => simp
      | cons c rest =>
          rw [List.intercalate_cons_cons, List.flatMap_append, List.flatMap_append, ih,
            List.flatMap_singleton, hempty, List.append_nil]
          rfl

/-! ### The layout -/

theorem isWordChar_of_isBlank {c : Char} (h : isBlank c = true) : isWordChar c = false := by
  by_contra hw
  rw [isBlank_eq_false_of (p := isWordChar) (by decide +kernel) (Bool.not_eq_false _ ▸ hw)] at h
  cases h

/-- The blanks at the end of a line do not matter to the word that it begins with. -/
theorem firstWord?_append_blanks {blanks : List Char} (h : ∀ c ∈ blanks, isBlank c = true)
    (cs : List Char) : firstWord? (cs ++ blanks) = firstWord? cs := by
  have hnone : blanks.takeWhile isWordChar = [] := by
    rw [List.takeWhile_eq_nil_iff]
    intro hlen
    simpa using isWordChar_of_isBlank (h _ (List.getElem_mem hlen))
  rw [firstWord?, List.takeWhile_append, hnone, List.append_nil, firstWord?]
  split
  · rename_i hlen
    rw [(List.takeWhile_prefix isWordChar).eq_of_length hlen]
  · rfl

/-- When only blanks make a line begin with a keyword and a blank, no word stands behind. -/
theorem firstWord?_of_append_blanks (keyword : List Char) {cs blanks rest : List Char}
    (h : ∀ c ∈ blanks, isBlank c = true)
    (hline : cs ++ blanks = keyword ++ ' ' :: rest) (hcs : ∀ more, cs ≠ keyword ++ ' ' :: more) :
    firstWord? rest = none := by
  have hnone : ∀ {cs : List Char}, (∀ c ∈ cs, isBlank c = true) → firstWord? cs = none :=
    fun hcs => firstWord?_append_blanks hcs []
  rcases List.append_eq_append_iff.mp hline with ⟨tail, -, rfl⟩ | ⟨tail, rfl, htail⟩
  · exact hnone fun c hc => h c (List.mem_append_right _ (List.mem_cons_of_mem _ hc))
  · cases tail with
    | nil =>
        refine hnone fun c hc => h c ?_
        rw [List.nil_append] at htail
        exact htail ▸ List.mem_cons_of_mem _ hc
    | cons c tail =>
        rw [List.cons_append, List.cons.injEq] at htail
        exact absurd (by rw [htail.1]) (hcs tail)

/-- The blanks at the end of a line do not matter to what it declares. -/
theorem declaredBy?_append_blanks {blanks : List Char} (h : ∀ c ∈ blanks, isBlank c = true)
    (cs : List Char) : declaredBy? (cs ++ blanks) = declaredBy? cs := by
  conv => rhs; unfold declaredBy?
  split
  · exact firstWord?_append_blanks h _
  · exact firstWord?_append_blanks h _
  · rename_i hvar hfunc
    unfold declaredBy?
    split
    · exact firstWord?_of_append_blanks ['v', 'a', 'r'] h ‹_› hvar
    · exact firstWord?_of_append_blanks ['f', 'u', 'n', 'c'] h ‹_› hfunc
    · rfl

theorem declaredBy?_trimEndChars (cs : List Char) :
    declaredBy? (trimEndChars cs) = declaredBy? cs := by
  obtain ⟨blanks, hcs, hblank⟩ := exists_trimEndChars_append cs
  rw [← declaredBy?_append_blanks hblank, hcs]

/-- A text declares the same in the layout. -/
theorem declaredNames_tidy (text : String) : declaredNames (tidy text) = declaredNames text := by
  have htidy : (tidyLines text.toList).filterMap declaredBy? = declaredNames text := by
    rw [tidyLines, filterMap_dropOuterEmpty rfl, filterMap_squeeze rfl, List.filterMap_map,
      declaredNames, linesOf]
    exact List.filterMap_congr fun line _ => declaredBy?_trimEndChars line
  by_cases hne : tidyLines text.toList = []
  · rw [← htidy, declaredNames, linesOf, tidy, hne]
    rfl
  · rw [declaredNames, linesOf_tidy hne, List.filterMap_append, htidy]
    exact List.append_nil _
/-! ### The declarations of a section -/

/-- What the section of a type declares for the whole package: its tables, and in the base group
the function that lists the values and the one that reads one. -/
inductive Declaration where
  | table (k : Table)
  | lister
  | reader
  deriving DecidableEq, Repr

/-- The name under which something is declared for a type. -/
def Declaration.name (t : String) : Declaration → String
  | .table k => "_" ++ t ++ String.ofList k.suffix
  | .lister => t ++ "Values"
  | .reader => t ++ "String"

/-- What a group of methods declares for the whole package. -/
def declarationsOf : MethodGroup → List Declaration
  | .base => [.lister, .reader]
  | .bitmask | .json | .yaml | .sql => []

/-- What a section declares for the whole package. -/
def declarations (groups : List MethodGroup) : List Declaration :=
  Table.all.map .table ++ groups.flatMap declarationsOf

variable {t : String}

theorem IsWord.append {a b : String} (ha : IsWord a) (hb : IsWord b) : IsWord (a ++ b) := by
  rw [IsWord, String.toList_append, List.forall_mem_append]
  exact ⟨ha, hb⟩

theorem isWord_ofList {cs : List Char} (h : cs.all isWordChar = true) :
    IsWord (String.ofList cs) := by
  rw [IsWord, String.toList_ofList]
  exact List.all_eq_true.mp h

/-- A line that opens a function declares what stands between the keyword and the bracket. -/
theorem declaredBy?_function {name : String} (h : IsWord name) (hne : name.toList ≠ [])
    (rest : String) : declaredBy? ("func " ++ (name ++ ("(" ++ rest))).toList = some name := by
  have hcs : ("func " ++ (name ++ ("(" ++ rest))).toList =
      'f' :: 'u' :: 'n' :: 'c' :: ' ' :: (name.toList ++ '(' :: rest.toList) := by
    simp
  rw [hcs, declaredBy?, firstWord?_append h hne ?_, String.ofList_toList]
  rintro c ⟨⟩
  decide

theorem filterMap_baseLines (ht : IsWord t) :
    (baseLines t).filterMap (fun line => declaredBy? line.toList) =
      [Declaration.lister.name t, Declaration.reader.name t] := by
  have hlister : declaredBy? ("func " ++ t ++ "Values() []" ++ t ++ " \x7b").toList =
      some (Declaration.lister.name t) := by
    have h := declaredBy?_function (ht.append (b := "Values") (isWord_ofList (by decide)))
      (by simp) (") []" ++ t ++ " \x7b")
    rw [Declaration.name, ← h]
    simp [String.append_assoc]
  have hreader : declaredBy? ("func " ++ t ++ "String(s string) (" ++ t ++ ", error) \x7b").toList =
      some (Declaration.reader.name t) := by
    have h := declaredBy?_function (ht.append (b := "String") (isWord_ofList (by decide)))
      (by simp) ("s string) (" ++ t ++ ", error) \x7b")
    rw [Declaration.name, ← h]
    simp [String.append_assoc]
  rw [baseLines]
  repeat
    first
      | rw [List.filterMap_cons_some (f := fun line : String => declaredBy? line.toList) hlister]
      | rw [List.filterMap_cons_some (f := fun line : String => declaredBy? line.toList) hreader]
      | rw [List.filterMap_cons_none]
      | rw [List.filterMap_nil]
  -- each of the other lines is literal text, or begins with some
  all_goals try simp only [String.append_assoc]
  all_goals with_reducible
    first
      | exact silent_ofList rfl
      | exact silent_ofList_append rfl

theorem declaredBy?_groupLines {g : MethodGroup} (hg : g ≠ .base) :
    ∀ line ∈ groupLines t g, declaredBy? line.toList = none := by
  cases g
  case base => exact absurd rfl hg
  all_goals
    simp only [groupLines, bitmaskLines, jsonLines, yamlLines, sqlLines, List.forall_mem_cons]
    repeat' refine And.intro ?_ ?_
  all_goals try simp only [String.append_assoc]
  all_goals with_reducible
    first
      | exact silent_ofList rfl
      | exact silent_ofList_append rfl
      | exact fun _ h => absurd h List.not_mem_nil

theorem flatMap_groupLines (ht : IsWord t) (g : MethodGroup) :
    (groupLines t g).flatMap declaredNames = (declarationsOf g).map (Declaration.name t) := by
  rw [flatMap_declaredNames_of_oneLine fun line hl =>
    (innerLine_groupLines ht.oneLine g line hl).oneLine]
  by_cases hg : g = .base
  · subst hg
    exact filterMap_baseLines ht
  · rw [List.filterMap_eq_nil_iff.mpr (declaredBy?_groupLines hg)]
    cases g
    case base => exact absurd rfl hg
    all_goals rfl

/-- The opening line of a table declares the table. -/
theorem declaredNames_opening (ht : IsWord t) (k : Table) :
    declaredNames (k.opening t) = [(Declaration.table k).name t] := by
  have hword : ∀ c ∈ '_' :: (t.toList ++ k.suffix), isWordChar c = true := by
    rw [List.forall_mem_cons, List.forall_mem_append]
    refine ⟨by decide, ht, List.all_eq_true.mp ?_⟩
    cases k <;> decide
  have hname : (Declaration.table k).name t = String.ofList ('_' :: (t.toList ++ k.suffix)) := by
    rw [← String.toList_inj, Declaration.name]
    simp
  rw [declaredNames_of_oneLine (k.solid_opening ht).oneLine, Table.opening_toList, hname]
  simp only [List.cons_append, List.nil_append]
  rw [declaredBy?, ← List.cons_append, firstWord?_append hword (List.cons_ne_nil _ _) ?_]
  · rfl
  · rintro c ⟨⟩
    decide

/-- When the name of a type ends in a line feed, the opening lines of its tables are broken behind
the same word. -/
theorem declaredNames_opening_lineFeed (ht : IsWord t) (k : Table) :
    ∃ more, declaredNames (k.opening (t ++ "\n")) = ("_" ++ t) :: more := by
  have hword : ∀ c ∈ '_' :: t.toList, isWordChar c = true := by
    rw [List.forall_mem_cons]
    exact ⟨by decide, ht⟩
  have hline : declaredBy? ("var _" ++ t).toList = some ("_" ++ t) := by
    have hcs : ("var _" ++ t).toList = 'v' :: 'a' :: 'r' :: ' ' :: (('_' :: t.toList) ++ []) := by
      simp
    have hname : String.ofList ('_' :: t.toList) = "_" ++ t := by
      rw [← String.toList_inj]
      simp
    rw [hcs, declaredBy?, firstWord?_append hword (List.cons_ne_nil _ _) (by simp), hname]
  obtain ⟨rest, hopening⟩ : ∃ rest, k.opening (t ++ "\n") = ("var _" ++ t) ++ "\n" ++ rest := by
    rw [Table.opening_eq]
    simp only [String.append_assoc]
    exact ⟨_, rfl⟩
  have hone : OneLine ("var _" ++ t) := (oneLine_ofList rfl).append ht.oneLine
  rw [hopening, declaredNames_lineFeed, declaredNames_of_oneLine hone, hline]
  exact ⟨_, rfl⟩

/-- A line of a table with the name of a constant in it declares nothing, be the line broken behind
the name or not. -/
theorem declaredNames_around {front name back : String} (hname : isIdentifier name = true)
    (hfront : OneLine front) (hback : OneLine back) (hhead : front.toList.head? = some '\t')
    (hsilent : declaredBy? back.toList = none) : declaredNames (front ++ name ++ back) = [] := by
  have hone : ∀ rest, OneLine rest → declaredNames (front ++ rest) = [] := by
    intro rest hrest
    obtain ⟨cs, hcs⟩ := List.head?_eq_some_iff.mp hhead
    rw [declaredNames_of_oneLine (hfront.append hrest), String.toList_append, hcs,
      List.cons_append, declaredBy?_of_head (by decide) (by decide)]
    rfl
  obtain ⟨word, hword, -, rfl | rfl⟩ := exists_word_of_isIdentifier hname
  · rw [String.append_assoc]
    exact hone _ (hword.oneLine.append hback)
  · rw [← String.append_assoc, declaredNames_lineFeed, hone _ hword.oneLine,
      declaredNames_of_oneLine hback, hsilent]
    rfl

variable {elements : List Element}

/-- The entries of a table declare nothing. -/
theorem declaredNames_entries (hn : ∀ e ∈ elements, isIdentifier e.name = true) (k : Table) :
    (k.entries (EnumSet.ofElements t elements)).flatMap declaredNames = [] := by
  have hcomma : declaredBy? ",".toList = none := by decide
  rw [List.flatMap_eq_nil_iff]
  intro line hl
  cases k with
  | valueToString =>
      obtain ⟨entry, hm, rfl⟩ := List.mem_map.mp hl
      obtain ⟨e, he, howner, -, -⟩ := EnumSet.owner_of_mem_valueToString hm
      have hback : OneLine (": " ++ (stringLiteral entry.2 ++ ",")) :=
        (oneLine_ofList rfl).append ((oneLine_stringLiteral _).append (oneLine_ofList rfl))
      rw [valueEntry, howner, Option.getD_some, String.append_assoc, String.append_assoc]
      exact declaredNames_around (hn e he) (oneLine_ofList rfl) hback rfl
        (silent_ofList_append rfl)
  | values =>
      obtain ⟨e, he, rfl⟩ := List.mem_map.mp hl
      rw [EnumSet.elements_ofElements] at he
      exact declaredNames_around (hn e he) (oneLine_ofList rfl) (oneLine_ofList rfl) rfl hcomma
  | stringToValue =>
      obtain ⟨entry, hm, rfl⟩ := List.mem_map.mp hl
      obtain ⟨e, he, howner, -, -⟩ := EnumSet.owner_of_mem_stringToValue hm
      rw [stringEntry, howner, Option.getD_some]
      refine declaredNames_around (hn e he) ?_ (oneLine_ofList rfl) ?_ hcomma
      · exact ((oneLine_ofList rfl).append (oneLine_stringLiteral _)).append (oneLine_ofList rfl)
      · simp

/-- A section declares what the opening lines of its tables and its groups of methods declare. -/
theorem declaredNames_sectionText (hn : ∀ e ∈ elements, isIdentifier e.name = true)
    (groups : List MethodGroup) :
    declaredNames (sectionText groups (EnumSet.ofElements t elements)) =
      (Table.all.flatMap fun k => declaredNames (k.opening t)) ++
        groups.flatMap fun g => (groupLines t g).flatMap declaredNames := by
  have hbrace : declaredNames "\x7d" = [] := by decide
  have htable : ∀ k, (Table.lines (EnumSet.ofElements t elements) k).flatMap declaredNames =
      declaredNames (k.opening t) := by
    intro k
    rw [Table.lines, EnumSet.typeName_ofElements, List.flatMap_cons, List.flatMap_append,
      declaredNames_entries hn, List.flatMap_singleton, hbrace, List.append_nil, List.append_nil]
  rw [sectionText, textOfBlocks, intercalate_textOfLines, declaredNames_textOfLines,
    flatMap_declaredNames_intercalate, sectionBlocks, List.flatMap_cons, tableLines_eq,
    flatMap_declaredNames_intercalate, List.flatMap_map, List.flatMap_map,
    EnumSet.typeName_ofElements]
  simp only [htable]

/-- The names that the section of a type declares, when its name is a word. -/
theorem declaredNames_section (ht : IsWord t) (hn : ∀ e ∈ elements, isIdentifier e.name = true)
    (groups : List MethodGroup) :
    declaredNames (sectionText groups (EnumSet.ofElements t elements)) =
      (declarations groups).map (Declaration.name t) := by
  rw [declaredNames_sectionText hn, declarations, List.map_append, List.map_map, List.map_flatMap]
  simp only [declaredNames_opening ht, flatMap_groupLines ht]
  rfl

/-- The names that the section of a type declares are not distinct when its name is broken. -/
theorem not_nodup_declaredNames_section (ht : IsWord t)
    (hn : ∀ e ∈ elements, isIdentifier e.name = true) (groups : List MethodGroup) :
    ¬ (declaredNames (sectionText groups (EnumSet.ofElements (t ++ "\n") elements))).Nodup := by
  obtain ⟨first, hfirst⟩ := declaredNames_opening_lineFeed ht .valueToString
  obtain ⟨second, hsecond⟩ := declaredNames_opening_lineFeed ht .values
  rw [declaredNames_sectionText hn, Table.all, List.flatMap_cons, List.flatMap_cons, hfirst,
    hsecond]
  simp

end EnumHelpers.Emission

namespace EnumHelpers.Job
open Emission

variable {job : Job}

/-- The names that the sections of a job declare for the whole package. -/
def declaredNames (job : Job) : List String := job.sections.flatMap Emission.declaredNames

theorem declaredNames_headerLines (hc : OneLine job.command) (hp : OneLine job.package) :
    job.headerLines.flatMap Emission.declaredNames = [] := by
  have hsilent : ∀ line ∈ job.headerLines, declaredBy? line.toList = none := by
    simp only [headerLines, List.forall_mem_append, List.forall_mem_cons, List.forall_mem_map,
      String.append_assoc]
    refine ⟨⟨⟨silent_ofList rfl, silent_ofList_append rfl, silent_ofList rfl,
      silent_ofList_append rfl, silent_ofList rfl, silent_ofList rfl, ?_⟩, fun path _ => ?_⟩,
      silent_ofList rfl, ?_⟩
    · exact fun _ h => absurd h List.not_mem_nil
    · exact silent_ofList_append rfl
    · exact fun _ h => absurd h List.not_mem_nil
  rw [flatMap_declaredNames_of_oneLine fun line hl => (innerLine_headerLines hc hp line hl).oneLine]
  exact List.filterMap_eq_nil_iff.mpr hsilent

/-- **What a generated file declares.**  When the command and the name of the package lie on one
line, the file declares what its sections do. -/
theorem declaredNames_of_code {code : String} (h : job.code = .ok code) (hc : OneLine job.command)
    (hp : OneLine job.package) : Emission.declaredNames (tidy code) = job.declaredNames := by
  rw [declaredNames_tidy, (code_eq_textOfLines h).2, fileLines, declaredNames_textOfLines,
    flatMap_declaredNames_intercalate, List.flatMap_cons, declaredNames_headerLines hc hp,
    List.nil_append, declaredNames, sections_eq, List.flatMap_map, List.flatMap_map,
    List.flatMap_map]
  exact List.flatMap_congr fun s _ => (declaredNames_textOfLines _).symm
end EnumHelpers.Job
