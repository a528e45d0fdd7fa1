import EnumHelpers.Proofs.Emission.Section

/-!
# Proofs — tables read back

A reader of the generated file that knows nothing of how it was made.  It finds the blocks of a
table by its opening line, cuts each line into a name and a literal, and puts the value of the
constant in the place of its name.  Lines *hold* the tables of a type when every block of them
reads as the table, and no two entries of a map have one key (`HoldTables`).

* `holdTables_of_heads`: lines in which the opening lines of the three tables of a set stand, and
  head them wherever they stand, hold the maps of the set.
-/

namespace EnumHelpers.Emission
open Text OrderedMap

/-! ### The reader -/

variable (value? : String → Option Int)

/-- The value of the constant whose name a text begins with, and the text after the name. -/
def readName? (cs : List Char) : Option (Int × List Char) :=
  (value? (String.ofList (cs.takeWhile isWordChar))).map fun v => (v, cs.dropWhile isWordChar)

/-- An entry made of a name and a literal. -/
def readValueLine? : Line → Option (Int × String)
  | '\t' :: cs =>
    match readName? value? cs with
    | some (v, ':' :: ' ' :: rest) =>
      match literal? rest with
      | some (text, [',']) => some (v, text)
      | _ => none
    | _ => none
  | _ => none

/-- An entry made of a name. -/
def readNameLine? : Line → Option Int
  | '\t' :: cs =>
    match readName? value? cs with
    | some (v, [',']) => some v
    | _ => none
  | _ => none

/-- An entry made of a literal and a name. -/
def readStringLine? : Line → Option (String × Int)
  | '\t' :: cs =>
    match literal? cs with
    | some (text, ':' :: ' ' :: rest) =>
      match readName? value? rest with
      | some (v, [',']) => some (text, v)
      | _ => none
    | _ => none
  | _ => none

/-- What the three tables of a type say. -/
structure Tables where
  valueToString : List (Int × String)
  values : List Int
  stringToValue : List (String × Int)
  deriving DecidableEq, Repr

/-- A block reads as a table says. -/
def Table.ReadsAs (k : Table) (tables : Tables) (block : List Line) : Prop :=
  match k with
  | .valueToString => block.mapM (readValueLine? value?) = some tables.valueToString
  | .values => block.mapM (readNameLine? value?) = some tables.values
  | .stringToValue => block.mapM (readStringLine? value?) = some tables.stringToValue

/-- No two entries of the block of a map have keys that denote the same. -/
def Table.KeysApart (k : Table) (block : List Line) : Prop :=
  match k with
  | .valueToString => (keys (block.filterMap (readValueLine? value?))).Nodup
  | .values => True
  | .stringToValue => (keys (block.filterMap (readStringLine? value?))).Nodup

/-- Lines hold the tables of a type: each table has a block among them, every block that its
opening line opens reads as the table says, and the keys of a map are apart in it. -/
structure HoldTables (t : String) (tables : Tables) (lines : List Line) : Prop where
  opens : ∀ k : Table, (k.opening t).toList ∈ lines
  reads : ∀ k : Table, ∀ block ∈ blocksOf (k.opening t).toList lines, k.ReadsAs value? tables block
  apart : ∀ k : Table, ∀ block ∈ blocksOf (k.opening t).toList lines, k.KeysApart value? block

/-- What the maps of a set say. -/
def tablesOf (s : EnumSet) : Tables := ⟨s.valueToString, s.values, s.stringToValue⟩

/-- The value of the element with a name. -/
def valueNamed? (elements : List Element) (name : String) : Option Int :=
  (elements.find? fun e => e.name = name).map Element.value

/-! ### Entries -/

variable {value?}

section
variable {α β : Type} {f : α → Option β} {xs : List α} {ys : List β}

theorem mapM_eq_some_iff : xs.mapM f = some ys ↔ xs.map f = ys.map some := by
  induction xs generalizing ys with
  | nil => cases ys <;> simp
  | cons x rest ih =>
      rw [List.mapM_cons, List.map_cons]
      cases ys with
      | nil => cases f x <;> cases rest.mapM f <;> simp
      | cons y more =>
          rw [List.map_cons, List.cons.injEq, ← ih]
          cases f x <;> cases rest.mapM f <;> simp

/-- What cannot be read stands in no list that is read. -/
theorem notMem_of_mapM (h : xs.mapM f = some ys) {x : α} (hx : f x = none) : x ∉ xs := by
  intro hm
  have hmem : f x ∈ ys.map some := mapM_eq_some_iff.mp h ▸ List.mem_map_of_mem hm
  obtain ⟨y, -, hy⟩ := List.mem_map.mp hmem
  cases hy.trans hx

/-- In a list that is read, everything is. -/
theorem filterMap_of_mapM (h : xs.mapM f = some ys) : xs.filterMap f = ys := by
  have hmap : xs.filterMap f = (xs.map f).filterMap id := by
    rw [List.filterMap_map]
    rfl
  rw [hmap, mapM_eq_some_iff.mp h, List.filterMap_map]
  exact List.filterMap_some

end

/-- An empty line is no entry, so a block that reads as a table has none. -/
theorem Table.ReadsAs.nil_notMem {k : Table} {tables : Tables} {block : List Line}
    (h : k.ReadsAs value? tables block) : [] ∉ block := by
  cases k with
  | valueToString => exact notMem_of_mapM h rfl
  | values => exact notMem_of_mapM h rfl
  | stringToValue => exact notMem_of_mapM h rfl

/-- A block that reads as a table has the keys of the table. -/
theorem Table.ReadsAs.keysApart {k : Table} {tables : Tables} {block : List Line}
    (h : k.ReadsAs value? tables block) (hv : (keys tables.valueToString).Nodup)
    (hs : (keys tables.stringToValue).Nodup) : k.KeysApart value? block := by
  cases k with
  | valueToString => rwa [KeysApart, filterMap_of_mapM h]
  | values => trivial
  | stringToValue => rwa [KeysApart, filterMap_of_mapM h]

/-- A name is read up to the first character that is of no word. -/
theorem readName?_append {name : String} {c : Char} {v : Int} (rest : List Char)
    (hn : IsWord name) (hc : isWordChar c = false) (hv : value? name = some v) :
    readName? value? (name.toList ++ c :: rest) = some (v, c :: rest) := by
  have htake : (name.toList ++ c :: rest).takeWhile isWordChar = name.toList := by
    rw [List.takeWhile_append_of_pos hn, List.takeWhile_cons, hc]
    simp
  have hdrop : (name.toList ++ c :: rest).dropWhile isWordChar = c :: rest := by
    rw [List.dropWhile_append_of_pos hn, List.dropWhile_cons, hc]
    simp
  rw [readName?, htake, hdrop, String.ofList_toList, hv]
  rfl

variable {t : String} {elements : List Element}

theorem toList_valueEntry {s : EnumSet} {entry : Int × String} {name : String}
    (h : get? entry.1 s.valueOwner = some name) :
    (valueEntry s entry).toList =
      '\t' :: (name.toList ++ ':' :: ' ' :: ((stringLiteral entry.2).toList ++ [','])) := by
  simp only [valueEntry, h, Option.getD_some, String.toList_append]
  simp

theorem toList_stringEntry {s : EnumSet} {entry : String × Int} {name : String}
    (h : get? entry.1 s.stringOwner = some name) :
    (stringEntry s entry).toList =
      '\t' :: ((stringLiteral entry.1).toList ++ ':' :: ' ' :: (name.toList ++ [','])) := by
  simp only [stringEntry, h, Option.getD_some, String.toList_append]
  simp

/-- The constants have the values that the reader puts for their names. -/
structure Reads (value? : String → Option Int) (elements : List Element) : Prop where
  word : ∀ e ∈ elements, IsWord e.name
  value : ∀ e ∈ elements, value? e.name = some e.value

/-- With distinct names, every element is found by its name. -/
theorem reads_valueNamed (hn : (elements.map Element.name).Nodup)
    (hw : ∀ e ∈ elements, IsWord e.name) : Reads (valueNamed? elements) elements := by
  refine ⟨hw, fun e he => ?_⟩
  have hinj : ∀ e' ∈ elements, e'.name = e.name → e' = e :=
    fun e' he' h => List.inj_on_of_nodup_map hn he' he h
  obtain ⟨e', hf⟩ : ∃ e', elements.find? (fun e' => e'.name = e.name) = some e' :=
    Option.isSome_iff_exists.mp (List.find?_isSome.mpr ⟨e, he, by simp⟩)
  rw [valueNamed?, hf, hinj e' (List.mem_of_find?_eq_some hf) (by simpa using List.find?_some hf)]
  rfl

theorem readValueLine?_valueEntry (h : Reads value? elements) {entry : Int × String}
    (hm : entry ∈ (EnumSet.ofElements t elements).valueToString) :
    readValueLine? value? (valueEntry (EnumSet.ofElements t elements) entry).toList =
      some entry := by
  obtain ⟨e, he, howner, hv, -⟩ := EnumSet.owner_of_mem_valueToString hm
  have hname := readName?_append (' ' :: ((stringLiteral entry.2).toList ++ [',']))
    (h.word e he) (c := ':') (by decide) (h.value e he)
  rw [toList_valueEntry howner, readValueLine?]
  simp only [hname, literal?_stringLiteral, hv]

theorem readNameLine?_elementEntry (h : Reads value? elements) {e : Element} (he : e ∈ elements) :
    readNameLine? value? (elementEntry e).toList = some e.value := by
  have hname := readName?_append [] (h.word e he) (c := ',') (by decide) (h.value e he)
  have hline : (elementEntry e).toList = '\t' :: (e.name.toList ++ [',']) := by
    simp [elementEntry]
  rw [hline, readNameLine?]
  simp only [hname]

theorem readStringLine?_stringEntry (h : Reads value? elements) {entry : String × Int}
    (hm : entry ∈ (EnumSet.ofElements t elements).stringToValue) :
    readStringLine? value? (stringEntry (EnumSet.ofElements t elements) entry).toList =
      some entry := by
  obtain ⟨e, he, howner, hv, -⟩ := EnumSet.owner_of_mem_stringToValue hm
  have hname := readName?_append [] (h.word e he) (c := ',') (by decide) (h.value e he)
  rw [toList_stringEntry howner, readStringLine?]
  simp only [literal?_stringLiteral, hname, hv]

/-! ### Blocks -/

theorem closing_notMem_entries (hn : ∀ e ∈ elements, OneLine e.name) (k : Table) :
    closing ∉ (k.entries (EnumSet.ofElements t elements)).map String.toList := by
  intro hm
  obtain ⟨line, hl, e⟩ := List.mem_map.mp hm
  obtain ⟨entry, -, rfl⟩ := isEntry_of_mem_entries hn k line hl
  simp [closing] at e

/-- The entries of a table read as the map of the set says. -/
theorem readsAs_entries (h : Reads value? elements) (t : String) (k : Table) :
    k.ReadsAs value? (tablesOf (EnumSet.ofElements t elements))
      ((k.entries (EnumSet.ofElements t elements)).map String.toList) := by
  cases k with
  | valueToString =>
      refine mapM_eq_some_iff.mpr ?_
      simp only [Table.entries, tablesOf, List.map_map, Function.comp_def]
      exact List.map_congr_left fun _ hm => readValueLine?_valueEntry h hm
  | values =>
      refine mapM_eq_some_iff.mpr ?_
      simp only [Table.entries, tablesOf, EnumSet.values, EnumSet.elements_ofElements,
        List.map_map, Function.comp_def]
      exact List.map_congr_left fun _ he => readNameLine?_elementEntry h he
  | stringToValue =>
      refine mapM_eq_some_iff.mpr ?_
      simp only [Table.entries, tablesOf, List.map_map, Function.comp_def]
      exact List.map_congr_left fun _ hm => readStringLine?_stringEntry h hm

/-- Blocks that read as the maps of a set have keys apart. -/
theorem keysApart_of_readsAs {k : Table} {block : List Line}
    (h : k.ReadsAs value? (tablesOf (EnumSet.ofElements t elements)) block) :
    k.KeysApart value? block :=
  h.keysApart EnumSet.nodup_values_of_valueToString EnumSet.nodup_texts_of_stringToValue

/-- **The tables are read back.**  Lines in which the opening lines of the three tables of a type
stand, and head them wherever they stand, hold what the maps of the type say. -/
theorem holdTables_of_heads {lines : List Line} (h : Reads value? elements)
    (ho : ∀ k : Table, (k.opening t).toList ∈ lines)
    (hh : ∀ k : Table, Heads (k.opening t).toList
      (k.body (EnumSet.ofElements t elements)) lines) :
    HoldTables value? t (tablesOf (EnumSet.ofElements t elements)) lines := by
  have hn : ∀ e ∈ elements, OneLine e.name := fun e he => (h.word e he).oneLine
  have hreads : ∀ k : Table, ∀ block ∈ blocksOf (k.opening t).toList lines,
      k.ReadsAs value? (tablesOf (EnumSet.ofElements t elements)) block := by
    intro k block hb
    rw [eq_of_mem_blocksOf (closing_notMem_entries hn k) (hh k) block hb]
    exact readsAs_entries h t k
  exact ⟨ho, hreads, fun k block hb => keysApart_of_readsAs (hreads k block hb)⟩

end EnumHelpers.Emission
