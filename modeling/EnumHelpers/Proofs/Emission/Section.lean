import EnumHelpers.Emission.Section
import EnumHelpers.Emission.Naming
import EnumHelpers.Proofs.Emission.Blocks
import EnumHelpers.Proofs.Emission.StringLiteral
import EnumHelpers.Proofs.Enum.Tables

/-!
# Proofs — the lines of a section

A section is the blocks of three tables and the lines of the method groups.  The line that opens a
table names the table and its type, so no other line of any section is equal to it
(`opening_inj`, `innerLine_groupLines`), and in a section of the type it heads the entries of the
table (`heads_sectionLines`).

The names of types and constants are taken to be words here: texts of word characters.
-/

namespace EnumHelpers.Emission
open Text OrderedMap

/-! ### Texts on one line -/

/-- A text without a line feed. -/
def OneLine (s : String) : Prop := '\n' ∉ s.toList

/-- A text on one line that opens no table: it does not begin with the letter that the opening
lines begin with. -/
structure InnerLine (line : String) : Prop where
  oneLine : OneLine line
  head : line.toList.head? ≠ some 'v'

theorem OneLine.append {a b : String} (ha : OneLine a) (hb : OneLine b) : OneLine (a ++ b) := by
  simp only [OneLine, String.toList_append, List.mem_append, not_or]
  exact ⟨ha, hb⟩

theorem oneLine_ofList {cs : List Char} (h : cs.contains '\n' = false) :
    OneLine (String.ofList cs) := by
  simpa [OneLine] using h

theorem innerLine_ofList {cs : List Char} (h : cs.contains '\n' = false)
    (hv : (cs.head? == some 'v') = false) : InnerLine (String.ofList cs) :=
  ⟨oneLine_ofList h, by simpa using hv⟩

/-- Whether a text opens a table shows at the first character of its first part. -/
theorem innerLine_ofList_append {c : Char} {cs : List Char} {b : String}
    (h : (c :: cs).contains '\n' = false) (hv : (c == 'v') = false) (hb : OneLine b) :
    InnerLine (String.ofList (c :: cs) ++ b) :=
  ⟨(oneLine_ofList h).append hb, by simpa using hv⟩

/-- The lines of the method groups open no table. -/
theorem innerLine_groupLines {t : String} (ht : OneLine t) (g : MethodGroup) :
    ∀ line ∈ groupLines t g, InnerLine line := by
  cases g
  all_goals
    simp only [groupLines, baseLines, bitmaskLines, jsonLines, yamlLines, sqlLines,
      List.forall_mem_cons]
    repeat' refine And.intro ?_ ?_
  -- each line is literal text with the name of the type spliced in
  all_goals try simp only [String.append_assoc]
  all_goals with_reducible
    first
      | exact innerLine_ofList rfl rfl
      | refine innerLine_ofList_append rfl rfl ?_
      | exact fun _ h => absurd h List.not_mem_nil
  all_goals repeat' with_reducible
    first
      | exact ht
      | refine OneLine.append ?_ ?_
      | exact oneLine_ofList rfl

/-! ### Words -/

/-- A text of word characters, as names are. -/
def IsWord (s : String) : Prop := ∀ c ∈ s.toList, isWordChar c = true

theorem IsWord.notMem {s : String} (h : IsWord s) {c : Char} (hc : isWordChar c = false) :
    c ∉ s.toList := fun hm => by
  rw [h c hm] at hc
  cases hc

theorem IsWord.oneLine {s : String} (h : IsWord s) : OneLine s := h.notMem (by decide)

/-- A name on one line is a word: only a last line feed is passed over. -/
theorem isWord_of_isIdentifier {s : String} (h : isIdentifier s = true) (hl : OneLine s) :
    IsWord s := by
  simp only [isIdentifier, isWord, Bool.and_eq_true] at h
  have hw := h.1
  intro c hc
  cases hs : s.toList with
  | nil => simp [hs] at hc
  | cons first rest =>
      simp only [hs, isWordOf, Bool.and_eq_true, List.all_eq_true] at hw
      -- the name has no line feed to pass over
      have hlast : withoutLastLineFeed rest = rest := by
        rw [withoutLastLineFeed, if_neg]
        exact fun e => hl (hs ▸ List.mem_cons_of_mem _ (List.mem_of_getLast? e))
      rw [hlast] at hw
      rcases List.mem_cons.mp (hs ▸ hc) with rfl | hc
      · exact hw.1.1
      · exact hw.2 c hc

/-! ### The tables of a type -/

/-- One of the three tables of a type. -/
inductive Table where
  | valueToString | values | stringToValue
  deriving DecidableEq, Repr

/-- The line that opens a table of a type. -/
def Table.opening (t : String) : Table → String
  | .valueToString => "var _" ++ t ++ "Map = map[" ++ t ++ "]string\x7b"
  | .values => "var _" ++ t ++ "Values = []" ++ t ++ "\x7b"
  | .stringToValue => "var _" ++ t ++ "NameToValueMap = map[string]" ++ t ++ "\x7b"

/-- The entries of a table. -/
def Table.entries (s : EnumSet) : Table → List String
  | .valueToString => s.valueToString.map (valueEntry s)
  | .values => s.elements.map elementEntry
  | .stringToValue => s.stringToValue.map (stringEntry s)

/-- The lines of a table. -/
def Table.lines (s : EnumSet) (k : Table) : List String :=
  k.opening s.typeName :: (k.entries s ++ ["\x7d"])

/-- The tables in the order in which a section has them. -/
def Table.all : List Table := [.valueToString, .values, .stringToValue]

/-- The tables are blocks of lines like any other. -/
theorem tableLines_eq (s : EnumSet) :
    tableLines s = [""].intercalate (Table.all.map (Table.lines s)) := by
  simp [tableLines, Table.all, Table.lines, Table.opening, Table.entries]

/-- A separator that stands in neither front part shows where they end. -/
theorem append_cons_inj {sep : Char} {a b x y : List Char} (ha : sep ∉ a) (hb : sep ∉ b)
    (h : a ++ sep :: x = b ++ sep :: y) : a = b ∧ x = y := by
  induction a generalizing b with
  | nil =>
      cases b with
      | nil => simpa using h
      | cons c b =>
          simp only [List.nil_append, List.cons_append, List.cons.injEq] at h
          exact absurd (h.1 ▸ List.mem_cons_self) hb
  | cons c a ih =>
      cases b with
      | nil =>
          simp only [List.nil_append, List.cons_append, List.cons.injEq] at h
          exact absurd (h.1 ▸ List.mem_cons_self) ha
      | cons d b =>
          simp only [List.cons_append, List.cons.injEq] at h
          obtain ⟨rfl, h⟩ := h
          simp only [List.mem_cons, not_or] at ha hb
          obtain ⟨rfl, hxy⟩ := ih ha.2 hb.2 h
          exact ⟨rfl, hxy⟩

/-- What an opening line calls its table, behind the name of the type. -/
def Table.suffix : Table → List Char
  | .valueToString => ['M', 'a', 'p']
  | .values => ['V', 'a', 'l', 'u', 'e', 's']
  | .stringToValue => ['N', 'a', 'm', 'e', 'T', 'o', 'V', 'a', 'l', 'u', 'e', 'M', 'a', 'p']

/-- What an opening line says of its table, up to the name of the type. -/
def Table.leading : Table → List Char
  | .valueToString => ['m', 'a', 'p', '[']
  | .values => ['[', ']']
  | .stringToValue => ['m', 'a', 'p', '[', 's', 't', 'r', 'i', 'n', 'g', ']']

/-- What an opening line says of its table, from behind the name of the type on. -/
def Table.trailing : Table → List Char
  | .valueToString => [']', 's', 't', 'r', 'i', 'n', 'g', '\x7b']
  | .values | .stringToValue => ['\x7b']

/-- The parts of an opening line. -/
theorem Table.opening_eq (t : String) (k : Table) :
    k.opening t = String.ofList ['v', 'a', 'r', ' ', '_'] ++ t ++
      String.ofList (k.suffix ++ ' ' :: '=' :: ' ' :: k.leading) ++ t ++
      String.ofList k.trailing := by
  cases k <;> rfl

theorem Table.opening_toList (t : String) (k : Table) :
    (k.opening t).toList = ['v', 'a', 'r', ' ', '_'] ++ ((t.toList ++ k.suffix) ++
      ' ' :: ('=' :: ' ' :: (k.leading ++ (t.toList ++ k.trailing)))) := by
  rw [opening_eq]
  simp

/-- The two tables that are maps are said the same only when both types are called `string`. -/
theorem Table.eq_of_maps {t t' : String} (ht : IsWord t)
    (h : valueToString.leading ++ (t.toList ++ valueToString.trailing) =
      stringToValue.leading ++ (t'.toList ++ stringToValue.trailing)) : t.toList = t'.toList := by
  have h : t.toList ++ ']' :: (['s', 't', 'r', 'i', 'n', 'g'] ++ ['\x7b']) =
      ['s', 't', 'r', 'i', 'n', 'g'] ++ ']' :: (t'.toList ++ ['\x7b']) := by
    simpa [leading, trailing] using h
  obtain ⟨ht, ht'⟩ := append_cons_inj (ht.notMem (by decide)) (by decide) h
  rw [ht, List.append_cancel_right ht']

/-- An opening line names its type and its table. -/
theorem Table.opening_inj {t t' : String} (ht : IsWord t) (ht' : IsWord t') {k k' : Table}
    (h : (k.opening t).toList = (k'.opening t').toList) : t = t' ∧ k = k' := by
  have blank : ∀ {t : String} (k : Table), IsWord t → ' ' ∉ t.toList ++ k.suffix :=
    fun k ht hm => (List.mem_append.mp hm).elim (ht.notMem (by decide)) (by cases k <;> decide)
  rw [opening_toList, opening_toList] at h
  obtain ⟨hname, hshape⟩ := append_cons_inj (blank k ht) (blank k' ht') (List.append_cancel_left h)
  simp only [List.cons.injEq, true_and] at hshape
  have same : k = k' := by
    cases k <;> cases k'
    case valueToString.stringToValue =>
        rw [eq_of_maps ht hshape] at hname
        exact absurd (List.append_cancel_left hname) (by decide)
    case stringToValue.valueToString =>
        rw [eq_of_maps ht' hshape.symm] at hname
        exact absurd (List.append_cancel_left hname) (by decide)
    all_goals first | rfl | simp [leading] at hshape
  subst same
  exact ⟨String.toList_inj.mp (List.append_cancel_right hname), rfl⟩

/-! ### Entries -/

/-- A line of a table: a tabulator, one entry and a comma. -/
def IsEntry (line : String) : Prop := ∃ entry, OneLine entry ∧ line = "\t" ++ entry ++ ","

theorem oneLine_stringLiteral (s : String) : OneLine (stringLiteral s) :=
  lineFeed_notMem_stringLiteral s

variable {t : String} {elements : List Element}

theorem isEntry_valueEntry (h : ∀ e ∈ elements, OneLine e.name) {entry : Int × String}
    (hm : entry ∈ (EnumSet.ofElements t elements).valueToString) :
    IsEntry (valueEntry (EnumSet.ofElements t elements) entry) := by
  obtain ⟨e, he, howner, -, -⟩ := EnumSet.owner_of_mem_valueToString hm
  refine ⟨e.name ++ ": " ++ stringLiteral entry.2,
    ((h e he).append (oneLine_ofList rfl)).append (oneLine_stringLiteral _), ?_⟩
  simp only [valueEntry, howner, Option.getD_some, String.append_assoc]

theorem isEntry_stringEntry (h : ∀ e ∈ elements, OneLine e.name) {entry : String × Int}
    (hm : entry ∈ (EnumSet.ofElements t elements).stringToValue) :
    IsEntry (stringEntry (EnumSet.ofElements t elements) entry) := by
  obtain ⟨e, he, howner, -, -⟩ := EnumSet.owner_of_mem_stringToValue hm
  refine ⟨stringLiteral entry.1 ++ ": " ++ e.name,
    ((oneLine_stringLiteral _).append (oneLine_ofList rfl)).append (h e he), ?_⟩
  simp only [stringEntry, howner, Option.getD_some, String.append_assoc]

/-- Every line of a table between the first and the last one is an entry. -/
theorem isEntry_of_mem_entries (h : ∀ e ∈ elements, OneLine e.name) (k : Table) :
    ∀ line ∈ k.entries (EnumSet.ofElements t elements), IsEntry line := by
  intro line hl
  cases k with
  | valueToString =>
      obtain ⟨entry, hm, rfl⟩ := List.mem_map.mp hl
      exact isEntry_valueEntry h hm
  | values =>
      obtain ⟨e, he, rfl⟩ := List.mem_map.mp hl
      rw [EnumSet.elements_ofElements] at he
      exact ⟨e.name, h e he, rfl⟩
  | stringToValue =>
      obtain ⟨entry, hm, rfl⟩ := List.mem_map.mp hl
      exact isEntry_stringEntry h hm

/-! ### Lines without the blanks at their ends -/

/-- The lines as they stand in the tidied file, empty ones apart. -/
def shownLines (lines : List String) : List Line :=
  lines.flatMap fun line => (splitAtChar '\n' line.toList).map trimEndChars

theorem shownLines_append (a b : List String) :
    shownLines (a ++ b) = shownLines a ++ shownLines b :=
  List.flatMap_append

theorem shownLines_cons (a : String) (b : List String) :
    shownLines (a :: b) = (splitAtChar '\n' a.toList).map trimEndChars ++ shownLines b :=
  List.flatMap_cons

/-- A text on one line whose last character is not blank. -/
structure Solid (line : String) : Prop where
  oneLine : OneLine line
  last : ∃ cs c, line.toList = cs ++ [c] ∧ isBlank c = false

theorem IsEntry.solid {line : String} (h : IsEntry line) : Solid line := by
  obtain ⟨entry, he, rfl⟩ := h
  exact ⟨((oneLine_ofList rfl).append he).append (oneLine_ofList rfl),
    ('\t' :: entry.toList), ',', by simp, by decide⟩

theorem solid_brace : Solid "\x7d" := ⟨oneLine_ofList rfl, [], '}', rfl, by decide⟩

theorem Table.solid_opening {t : String} (ht : IsWord t) (k : Table) : Solid (k.opening t) := by
  constructor
  · rw [opening_eq]
    refine ((((oneLine_ofList rfl).append ht.oneLine).append (oneLine_ofList ?_)).append
      ht.oneLine).append (oneLine_ofList ?_)
    all_goals cases k <;> rfl
  · obtain ⟨cs, e⟩ : ∃ cs, k.trailing = cs ++ ['\x7b'] := by
      cases k
      exacts [⟨[']', 's', 't', 'r', 'i', 'n', 'g'], rfl⟩, ⟨[], rfl⟩, ⟨[], rfl⟩]
    refine ⟨['v', 'a', 'r', ' ', '_'] ++ ((t.toList ++ k.suffix) ++
      ' ' :: ('=' :: ' ' :: (k.leading ++ (t.toList ++ cs)))), '\x7b', ?_, by decide⟩
    rw [opening_toList, e]
    simp only [List.append_assoc, List.cons_append]

/-- Lines that do not end in a blank are shown as they are. -/
theorem shownLines_eq_map {lines : List String} (h : ∀ line ∈ lines, Solid line) :
    shownLines lines = lines.map String.toList := by
  induction lines with
  | nil => rfl
  | cons line rest ih =>
      obtain ⟨hl, cs, c, e, hc⟩ := h line List.mem_cons_self
      rw [shownLines_cons, splitAtChar_of_notMem hl, ih fun l hl => h l (List.mem_cons_of_mem _ hl),
        List.map_singleton, e, trimEndChars_append cs hc, List.map_cons, e]
      rfl

/-! ### Which lines an opening line heads -/

/-- The lines that follow the opening line of a table. -/
def Table.body (k : Table) (s : EnumSet) : List Line :=
  (k.entries s).map String.toList ++ [closing]

theorem Table.head?_opening (t : String) (k : Table) : (k.opening t).toList.head? = some 'v' := by
  rw [opening_toList]; rfl

theorem Table.opening_ne_nil (t : String) (k : Table) : (k.opening t).toList ≠ [] := fun e => by
  simpa [e] using head?_opening t k

theorem InnerLine.notMem {t : String} {k : Table} {lines : List String}
    (h : ∀ line ∈ lines, InnerLine line) : (k.opening t).toList ∉ shownLines lines := by
  intro hm
  obtain ⟨line, hl, hm⟩ := List.mem_flatMap.mp hm
  rw [splitAtChar_of_notMem (h line hl).oneLine, List.map_singleton, List.mem_singleton] at hm
  have hp : (k.opening t).toList <+: line.toList := hm ▸ trimEndChars_isPrefix line.toList
  obtain ⟨more, e⟩ := hp
  refine (h line hl).head ?_
  rw [← e, List.head?_append, Table.head?_opening]
  rfl

theorem IsEntry.innerLine {line : String} (h : IsEntry line) : InnerLine line :=
  ⟨h.solid.oneLine, by obtain ⟨entry, -, rfl⟩ := h; simp⟩

theorem innerLine_empty : InnerLine "" := innerLine_ofList rfl rfl

variable {t t' : String} {elements elements' : List Element} {groups : List MethodGroup}

/-- A table is shown as it is. -/
theorem shownLines_table (ht : IsWord t) (hn : ∀ e ∈ elements, OneLine e.name) (k : Table) :
    shownLines (k.lines (EnumSet.ofElements t elements)) =
      (k.opening t).toList :: k.body (EnumSet.ofElements t elements) := by
  have hsolid : ∀ line ∈ k.lines (EnumSet.ofElements t elements), Solid line := by
    simp only [Table.lines, EnumSet.typeName_ofElements, List.forall_mem_cons,
      List.forall_mem_append]
    exact ⟨k.solid_opening ht, fun l hl => (isEntry_of_mem_entries hn k l hl).solid, solid_brace,
      fun _ h => absurd h List.not_mem_nil⟩
  rw [shownLines_eq_map hsolid]
  simp only [Table.lines, Table.body, EnumSet.typeName_ofElements, List.map_cons, List.map_append,
    List.map_nil]
  rfl

theorem opening_notMem_body (t t' : String) (hn : ∀ e ∈ elements', OneLine e.name)
    (k k' : Table) : (k.opening t).toList ∉ k'.body (EnumSet.ofElements t' elements') := by
  rw [Table.body, List.mem_append, not_or]
  constructor
  · intro hm
    obtain ⟨line, hl, e⟩ := List.mem_map.mp hm
    exact (isEntry_of_mem_entries hn k' line hl).innerLine.head (e ▸ Table.head?_opening t k)
  · intro hm
    have h := Table.head?_opening t k
    rw [List.mem_singleton.mp hm] at h
    exact absurd h (by decide)

/-- The opening line of a table heads the table wherever a table is shown, unless another set of
the same type is shown. -/
theorem heads_table (ht : IsWord t) (ht' : IsWord t')
    (hn : ∀ e ∈ elements', OneLine e.name) (hs : t' = t → elements' = elements) (k k' : Table) :
    Heads (k.opening t).toList (k.body (EnumSet.ofElements t elements))
      (shownLines (k'.lines (EnumSet.ofElements t' elements'))) := by
  have hbody := opening_notMem_body t t' hn k k'
  rw [shownLines_table ht' hn]
  -- equal opening lines are of one type and one table, whose body follows
  by_cases e : (k'.opening t').toList = (k.opening t).toList
  · obtain ⟨rfl, rfl⟩ := Table.opening_inj ht' ht e
    rw [hs rfl] at hbody ⊢
    exact heads_block hbody
  · exact ⟨fun h => absurd h e, heads_of_notMem hbody⟩

theorem heads_intercalate {opening : Line} {body : List Line} {blocks : List (List String)}
    (ho : opening ≠ []) (h : ∀ b ∈ blocks, Heads opening body (shownLines b)) :
    Heads opening body (shownLines ([""].intercalate blocks)) := by
  induction blocks with
  | nil => trivial
  | cons b rest ih =>
      cases rest with
      | nil => simpa using h b List.mem_cons_self
      | cons c rest =>
          rw [List.intercalate_cons_cons, shownLines_append, shownLines_append]
          have hempty : Heads opening body (shownLines [""]) :=
            heads_of_notMem (by simpa [shownLines, splitAtChar, trimEndChars] using ho)
          exact ((h b List.mem_cons_self).append hempty).append
            (ih fun b hb => h b (List.mem_cons_of_mem _ hb))

theorem mem_shownLines_intercalate {line : Line} {blocks : List (List String)} {b : List String}
    (hb : b ∈ blocks) (h : line ∈ shownLines b) :
    line ∈ shownLines ([""].intercalate blocks) := by
  induction blocks with
  | nil => simp at hb
  | cons c rest ih =>
      cases rest with
      | nil =>
          rw [List.mem_singleton] at hb
          subst hb
          simpa using h
      | cons d rest =>
          rw [List.intercalate_cons_cons, shownLines_append, shownLines_append]
          rcases List.mem_cons.mp hb with rfl | hb
          · exact List.mem_append_left _ (List.mem_append_left _ h)
          · exact List.mem_append_right _ (ih hb)

/-- **Where a table is found.** The opening line of a table heads the table wherever it stands in
a section, unless the section is that of another set of the same type. -/
theorem heads_section (ht : IsWord t) (ht' : IsWord t')
    (hn : ∀ e ∈ elements', OneLine e.name) (hs : t' = t → elements' = elements) (k : Table) :
    Heads (k.opening t).toList (k.body (EnumSet.ofElements t elements))
      (shownLines ([""].intercalate (sectionBlocks groups (EnumSet.ofElements t' elements')))) := by
  refine heads_intercalate (k.opening_ne_nil t) ?_
  rw [sectionBlocks, List.forall_mem_cons]
  constructor
  · rw [tableLines_eq]
    refine heads_intercalate (k.opening_ne_nil t) fun b hb => ?_
    obtain ⟨k', -, rfl⟩ := List.mem_map.mp hb
    exact heads_table ht ht' hn hs k k'
  · intro b hb
    obtain ⟨g, -, rfl⟩ := List.mem_map.mp hb
    rw [EnumSet.typeName_ofElements]
    exact heads_of_notMem (InnerLine.notMem (innerLine_groupLines ht'.oneLine g))

/-- A section has each of its tables. -/
theorem opening_mem_section (groups : List MethodGroup) (ht : IsWord t)
    (hn : ∀ e ∈ elements, OneLine e.name) (k : Table) :
    (k.opening t).toList ∈
      shownLines ([""].intercalate (sectionBlocks groups (EnumSet.ofElements t elements))) := by
  refine mem_shownLines_intercalate List.mem_cons_self ?_
  rw [tableLines_eq]
  refine mem_shownLines_intercalate
    (List.mem_map_of_mem (show k ∈ Table.all by cases k <;> simp [Table.all])) ?_
  rw [shownLines_table ht hn]
  exact List.mem_cons_self

end EnumHelpers.Emission
