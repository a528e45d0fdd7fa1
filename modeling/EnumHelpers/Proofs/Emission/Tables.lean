import EnumHelpers.Proofs.Emission.Header
import EnumHelpers.Proofs.Emission.ReadBack

/-!
# Proofs — the tables of a generated file

From its package clause on, a generated file holds the tables of every type that was asked for,
whatever the command is.  Above the clause stands the command, which repeats texts of the settings
as they are given; what these put there may open a block like that of a table.

* `holdTables_linesOf_iff`: the whole file holds the tables of a type if and only if every block
  that the command opens for one reads as the table too.  A command on one line opens none.
-/

namespace EnumHelpers.Job
open Emission OrderedMap Text

variable {job : Job} {t : String} {s : EnumSet}

/-- The lines of the file of a job from its package clause on. -/
def linesBelow (job : Job) : List Line := squeeze false (shownLines job.bodyLines) ++ [[]]

/-- The opening line of a table heads the table wherever it stands from the package clause on. -/
theorem heads_linesBelow (hj : job.Worded) (hp : OneLine job.package)
    (h : get? t job.enumSets = some s) (k : Table) :
    Heads (k.opening t).toList (k.body s) job.linesBelow := by
  have hbody : Heads (k.opening t).toList (k.body s) (shownLines job.bodyLines) := by
    refine heads_intercalate (k.opening_ne_nil t) (List.forall_mem_cons.mpr ⟨?_, ?_⟩)
    · exact heads_of_notMem (InnerLine.notMem (innerLine_clauseLines hp))
    · exact heads_sectionLines hj h k
  have hempty : (k.opening t).toList ∉ [[]] := by simpa using k.opening_ne_nil t
  exact (hbody.squeeze (k.opening_ne_nil t) (allFull_body hj h k) false).append
    (heads_of_notMem hempty)

theorem opening_mem_linesBelow (hj : job.Worded) (hm : t ∈ job.typeNames)
    (h : get? t job.enumSets = some s) (k : Table) :
    (k.opening t).toList ∈ job.linesBelow := by
  refine List.mem_append_left _ (mem_squeeze_of_ne_nil (k.opening_ne_nil t) ?_ false)
  exact mem_shownLines_intercalate (List.mem_cons_of_mem _ (List.mem_map_of_mem (mem_sets hm h)))
    (opening_mem_sectionLines hj h k)

/-- **From the package clause on, a file holds the tables of its types.** -/
theorem holdTables_linesBelow (hj : job.Worded) (hp : OneLine job.package)
    (hm : t ∈ job.typeNames) {elements : List Element}
    (h : get? t job.enumSets = some (EnumSet.ofElements t elements))
    {value? : String → Option Int} (hr : Reads value? elements) :
    HoldTables value? t (tablesOf (EnumSet.ofElements t elements)) job.linesBelow :=
  holdTables_of_heads hr (opening_mem_linesBelow hj hm h) (heads_linesBelow hj hp h)

end EnumHelpers.Job

namespace EnumHelpers.Report
open Emission OrderedMap Text

variable {t : SymbolTable} {s : Settings} {code : String} {warnings : List Job.Warning}
  {summary : Summary}

/-- The lines of the command end in an empty one. -/
theorem echoLines_eq_concat (s : Settings) : ∃ front, echoLines s = front ++ [[]] := by
  rcases squeeze_concat_nil false (shownLines ["// Command: " ++ s.command]) with ⟨h, -⟩ | h
  · cases h
  · exact h

/-- A command on one line opens no table. -/
theorem opening_notMem_echoLines (hone : s.OnOneLine) (name : String) (k : Table) :
    (k.opening name).toList ∉ echoLines s := by
  have hinner : ∀ line ∈ ["// Command: " ++ s.command], InnerLine line :=
    List.forall_mem_singleton.mpr
      (Job.innerLine_commandLine (Settings.oneLine_command_iff.mpr hone))
  intro hm
  rcases List.mem_append.mp (mem_squeeze hm) with hm | hm
  · exact InnerLine.notMem hinner hm
  · exact k.opening_ne_nil name (List.mem_singleton.mp hm)

/-- The line of the generator opens no table. -/
theorem opening_ne_generatorLine (name : String) (k : Table) :
    generatorLine ≠ (k.opening name).toList := by
  intro e
  have hhead := k.head?_opening name
  rw [← e] at hhead
  exact absurd hhead (by decide)

/-- A file whose lines from the package clause on hold the tables of a type holds them if and only
if every block that its command opens for one of them reads as the table.  A block that the command
leaves open has the empty line behind the command in it, so it reads as none. -/
theorem holdTables_iff_echo {job : Job} {name : String} {elements : List Element}
    {value? : String → Option Int}
    (hlines : linesOf code = generatorLine :: echoLines s ++ job.linesBelow)
    (hbelow : HoldTables value? name (tablesOf (EnumSet.ofElements name elements)) job.linesBelow) :
    HoldTables value? name (tablesOf (EnumSet.ofElements name elements)) (linesOf code) ↔
      ∀ k : Table, ∀ block ∈ blocksOf (k.opening name).toList (echoLines s),
        k.ReadsAs value? (tablesOf (EnumSet.ofElements name elements)) block := by
  obtain ⟨front, hfront⟩ := echoLines_eq_concat s
  have hreads : ∀ k : Table,
      (∀ block ∈ blocksOf (k.opening name).toList (linesOf code),
        k.ReadsAs value? (tablesOf (EnumSet.ofElements name elements)) block) ↔
      ∀ block ∈ blocksOf (k.opening name).toList (echoLines s),
        k.ReadsAs value? (tablesOf (EnumSet.ofElements name elements)) block := by
    intro k
    rw [hlines, List.cons_append, blocksOf, if_neg (opening_ne_generatorLine name k), hfront,
      List.append_assoc, List.singleton_append,
      forall_blocksOf_append_iff (k.opening_ne_nil name) fun _ hb => hb.nil_notMem]
    exact and_iff_left (hbelow.reads k)
  constructor
  · exact fun hold k => (hreads k).mp (hold.reads k)
  · intro hecho
    have hall := fun k => (hreads k).mpr (hecho k)
    refine ⟨fun k => ?_, hall, fun k block hb => keysApart_of_readsAs (hall k block hb)⟩
    rw [hlines]
    exact List.mem_append_right _ (hbelow.opens k)

/-- **The tables of a generated file.**  For every type that was asked for, the lines from the
package clause on hold the maps of the set that its members make, with the exact value of each
constant in the place of its name, whatever the command is.  The whole file holds them if and only
if every block that the command opens for one of the tables reads as the table too; a command whose
texts lie on one line opens none. -/
theorem holdTables_linesOf_iff (hn : t.NamesOnOneLine)
    (h : generate t s = .ok (.generated code warnings summary)) {name : String}
    (hm : name ∈ s.typeNames) :
    ∃ members elements, Enum.resolve t (requestFor s name) = .ok members ∧
      Enum.elementsOf members = .ok elements ∧
      (HoldTables (valueNamed? elements) name (tablesOf (EnumSet.ofElements name elements))
          (linesOf code) ↔
        ∀ k : Table, ∀ block ∈ blocksOf (k.opening name).toList (echoLines s),
          k.ReadsAs (valueNamed? elements) (tablesOf (EnumSet.ofElements name elements)) block) ∧
      (s.OnOneLine → ∀ k : Table, blocksOf (k.opening name).toList (echoLines s) = []) ∧
      ∃ job clause more, jobOf t s = .ok job ∧ job.linesBelow = clause :: more ∧
        opensPackage clause = true ∧ linesOf code = generatorLine :: echoLines s ++ job.linesBelow ∧
        HoldTables (valueNamed? elements) name (tablesOf (EnumSet.ofElements name elements))
          job.linesBelow := by
  obtain ⟨job, hj, hf, -⟩ := job_of_generate h
  obtain ⟨job', clause, more, hj', hclause, hbody, hcode⟩ := linesOf_of_generate h
  cases hj.symm.trans hj'
  have hbelow : job.linesBelow = clause :: (more ++ [[]]) := by
    rw [Job.linesBelow, hbody, List.cons_append]
  have hlines : linesOf code = generatorLine :: echoLines s ++ job.linesBelow := by
    rw [hcode, hbelow, List.append_assoc]
    rfl
  have hw := worded_of_faults hn hj hf
  obtain ⟨hmem, set, hset⟩ := set_of_mem_typeNames hj hf hm
  obtain ⟨-, members, elements, hr, he, rfl⟩ := resolve_of_jobOf hj hset
  have hwords := (hw name _ hset).2.2
  rw [EnumSet.elements_ofElements] at hwords
  have hholds := Job.holdTables_linesBelow hw (hn.package _ (fields_of_jobOf hj).2.2) hmem hset
    (reads_valueNamed (Enum.nodup_names_of_resolve hr he) hwords)
  exact ⟨members, elements, hr, he, holdTables_iff_echo hlines hholds,
    fun hone k => blocksOf_eq_nil (opening_notMem_echoLines hone name k),
    job, clause, _, hj, hbelow, hclause, hlines, hholds⟩

/-- The elements of the type of the table. -/
def pairElements : List Element := [⟨"A", 1, "A"⟩, ⟨"B", 1, "b\"c"⟩]

/-- The file of the table holds the maps of its type. -/
theorem holdTables_pairTable : ∃ code warnings summary,
    generate pairTable pairSettings = .ok (.generated code warnings summary) ∧
      HoldTables (valueNamed? pairElements) "T"
        ⟨[(1, "b\"c")], [1, 1], [("A", 1), ("b\"c", 1)]⟩ (linesOf code) := by
  obtain ⟨code, warnings, summary, h⟩ := generate_pairTable
  obtain ⟨members, elements, hr, he, hiff, hnone, -⟩ :=
    holdTables_linesOf_iff namesOnOneLine_pairTable h (List.mem_singleton.mpr rfl)
  rw [resolve_pairTable] at hr
  cases hr
  cases he
  have hone : pairSettings.OnOneLine := by
    refine ⟨?_, oneLine_ofList rfl, nofun⟩
    exact List.forall_mem_singleton.mpr (oneLine_ofList rfl)
  refine ⟨code, warnings, summary, h, hiff.mpr fun k block hb => ?_⟩
  rw [hnone hone k] at hb
  cases hb

/-- Settings whose output goes on with a block of its own, in which one key stands twice. -/
def claimingSettings : Settings :=
  { pairSettings with
    output := some "a.go\nvar _TMap = map[T]string\x7b\n\tA: \"x\",\n\tA: \"y\",\n\x7d" }

/-- The entries of the block. -/
def claimedEntries : List Line := ["\tA: \"x\",".toList, "\tA: \"y\",".toList]

theorem echoLines_claimingSettings : echoLines claimingSettings =
    "// Command: enumer -type=T -linecomment -output=a.go".toList ::
      (Table.valueToString.opening "T").toList :: (claimedEntries ++ [closing]) ++ [[]] := by
  have hcommand : claimingSettings.command = "enumer -type=T -linecomment -output=a.go\n" ++
      "var _TMap = map[T]string\x7b\n\tA: \"x\",\n\tA: \"y\",\n\x7d" := by
    have hsorted : claimingSettings.sortedTypeNames = ["T"] := List.mergeSort_singleton "T"
    rw [Settings.command, hsorted]
    decide
  rw [echoLines, hcommand]
  decide

/-- **A key that stands twice.**  The file opens the first table of the type once more, above its
package clause, and both entries there are of one value; so it does not hold the tables. -/
theorem key_twice_above_package : ∃ code warnings summary,
    generate pairTable claimingSettings = .ok (.generated code warnings summary) ∧
      (∃ members, Enum.resolve pairTable (requestFor claimingSettings "T") = .ok members ∧
        Enum.elementsOf members = .ok pairElements) ∧
      claimedEntries ∈ blocksOf (Table.valueToString.opening "T").toList (linesOf code) ∧
      claimedEntries.mapM (readValueLine? (valueNamed? pairElements)) =
        some [(1, "x"), (1, "y")] ∧
      ¬ HoldTables (valueNamed? pairElements) "T" (tablesOf (EnumSet.ofElements "T" pairElements))
        (linesOf code) := by
  obtain ⟨code, warnings, summary, h⟩ : Succeeds pairTable claimingSettings :=
    (succeeds_output _).mpr generate_pairTable
  obtain ⟨job, clause, more, -, -, -, hlines⟩ := linesOf_of_generate h
  have hblock : claimedEntries ∈
      blocksOf (Table.valueToString.opening "T").toList (linesOf code) := by
    refine mem_blocksOf (by decide)
      ⟨[generatorLine, "// Command: enumer -type=T -linecomment -output=a.go".toList],
        [] :: clause :: more ++ [[]], ?_⟩
    rw [hlines, echoLines_claimingSettings]
    simp
  have hread : claimedEntries.mapM (readValueLine? (valueNamed? pairElements)) =
      some [(1, "x"), (1, "y")] := by decide
  refine ⟨code, warnings, summary, h, ⟨_, resolve_pairTable, rfl⟩, hblock, hread, fun hold => ?_⟩
  have hsays : claimedEntries.mapM (readValueLine? (valueNamed? pairElements)) =
      some (tablesOf (EnumSet.ofElements "T" pairElements)).valueToString :=
    hold.reads .valueToString _ hblock
  rw [hread] at hsays
  exact absurd hsays (by decide)

end EnumHelpers.Report
