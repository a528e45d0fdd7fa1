import EnumHelpers.Proofs.Emission.Separation
import EnumHelpers.Proofs.Settings.Command

/-!
# Proofs — what stands above the package clause

A generated file begins with a line that says what generated it and with the command of the run, in
a comment.  The command repeats texts of the settings as they are given, and a comment ends at the
next line feed.

* `header_iff`: above the package clause stand the line of the generator, one line with the whole
  command and empty lines, if and only if the texts in the command lie on one line and its last
  character is no blank.  What stands from the package clause on does not depend on the command.
-/

namespace EnumHelpers.Emission
open Text

/-- The line that says what generated a file. -/
def generatorLine : Line := "// Code generated by enumer; DO NOT EDIT.".toList

/-- The line that holds the command of a run. -/
def commandLine (s : Settings) : Line := ("// Command: " ++ s.command).toList

/-- Whether a line begins as a package clause does. -/
def opensPackage (line : Line) : Bool := "package ".toList.isPrefixOf line

/-- The lines of a file above its package clause. -/
def linesAbovePackage (code : String) : List Line :=
  (linesOf code).takeWhile fun line => !opensPackage line

end EnumHelpers.Emission

namespace EnumHelpers.Settings
open Emission Text

variable {s : Settings}

/-- Settings whose texts lie on one line each, as far as a command repeats them. -/
structure OnOneLine (s : Settings) : Prop where
  typeNames : ∀ name ∈ s.typeNames, OneLine name
  trimPrefix : OneLine s.trimPrefix
  output : ∀ name ∈ s.givenOutput, OneLine name

theorem lineFeed_notMem_flag (b : Bool) : ∀ own ∈ flag b, '\n' ∉ own := by cases b <;> decide

theorem lineFeed_notMem_given {text : String} :
    (∀ own ∈ given text, '\n' ∉ own) ↔ OneLine text := by
  rw [given]
  split
  · rename_i h
    simp [h, OneLine]
  · simp [OneLine]

theorem oneLine_joined {names : List String} :
    OneLine (String.intercalate "," names) ↔ ∀ name ∈ names, OneLine name := by
  cases names with
  | nil => simp [OneLine]
  | cons first rest => simp [OneLine, intercalate_cons_eq_join]

/-- A command lies on one line when the texts of its options do. -/
theorem oneLine_command_iff_options :
    OneLine s.command ↔ ∀ option ∈ s.options, ∀ own ∈ option.2, '\n' ∉ own := by
  have hkeys : ∀ option ∈ s.options, '\n' ∉ option.1 := by simp [options]
  have hhead : '\n' ∉ "enumer".toList := by decide
  have hword : ∀ option ∈ s.options, (∀ w ∈ wordsOf option, '\n' ∉ w) ↔
      ∀ own ∈ option.2, '\n' ∉ own := by
    intro option hoption
    simp [wordsOf, hkeys option hoption]
  have hmem : '\n' ∈ s.command.toList ↔ ∃ w ∈ s.options.flatMap wordsOf, '\n' ∈ w := by
    rw [toList_command, List.mem_append, or_iff_right hhead]
    simp
  rw [OneLine, hmem, ← forall₂_congr hword]
  constructor
  · exact fun h option hoption w hw hn => h ⟨w, List.mem_flatMap.mpr ⟨option, hoption, hw⟩, hn⟩
  · rintro h ⟨w, hw, hn⟩
    obtain ⟨option, hoption, hw⟩ := List.mem_flatMap.mp hw
    exact h option hoption w hw hn

/-- A command lies on one line when the texts that it repeats do. -/
theorem oneLine_command_iff : OneLine s.command ↔ OnOneLine s := by
  have hnames : (∀ name ∈ s.sortedTypeNames, OneLine name) ↔ ∀ name ∈ s.typeNames, OneLine name :=
    forall_congr' fun name => by rw [(perm_sortedTypeNames s).mem_iff]
  rw [oneLine_command_iff_options]
  simp only [options, List.forall_mem_cons, lineFeed_notMem_given]
  constructor
  · rintro ⟨htypes, hprefix, -, -, -, -, houtput, -⟩
    exact ⟨hnames.mp (oneLine_joined.mp (htypes _ rfl)), hprefix,
      fun name hname => houtput _ (Option.mem_map_of_mem _ hname)⟩
  · rintro ⟨htypes, hprefix, houtput⟩
    have hjoined : OneLine (String.intercalate "," s.sortedTypeNames) :=
      oneLine_joined.mpr (hnames.mpr htypes)
    refine ⟨?_, hprefix, lineFeed_notMem_flag _, lineFeed_notMem_flag _, lineFeed_notMem_flag _,
      lineFeed_notMem_flag _, ?_, lineFeed_notMem_flag _, by simp⟩
    · rintro own ⟨⟩
      exact hjoined
    · intro own hown
      obtain ⟨name, hname, rfl⟩ := Option.mem_map.mp hown
      exact houtput name hname

end EnumHelpers.Settings

namespace EnumHelpers.Job
open Emission Text

variable (job : Job)

/-- The lines of a file from its package clause on. -/
def bodyLines : List String :=
  [""].intercalate (job.headerLines.drop 3 :: job.sets.map job.sectionLines)

theorem intercalate_append {α : Type} (sep front block : List α) (blocks : List (List α)) :
    sep.intercalate ((front ++ block) :: blocks) = front ++ sep.intercalate (block :: blocks) := by
  cases blocks with
  | nil => simp
  | cons next rest => simp [List.intercalate_cons_cons]

theorem fileLines_eq : job.fileLines =
    ["// Code generated by enumer; DO NOT EDIT.", "// Command: " ++ job.command, ""] ++
      job.bodyLines := by
  rw [fileLines, bodyLines, ← intercalate_append]
  rfl

variable {job}

/-- The lines from the package clause on begin with it. -/
theorem shownLines_bodyLines (h : packageFaults job.package = []) :
    ∃ clause more, shownLines job.bodyLines = clause :: more ∧ opensPackage clause = true := by
  obtain ⟨c, rest, hpackage, hblank⟩ :
      ∃ c rest, job.package.toList = c :: rest ∧ isBlank c = false := by
    have hword : isWord job.package = true := by
      by_contra hn
      simp [packageFaults, hn] at h
      split at h <;> simp at h
    rw [isWord] at hword
    cases hcs : job.package.toList with
    | nil => rw [hcs] at hword; cases hword
    | cons c rest =>
        simp only [hcs, isWordOf, Bool.and_eq_true] at hword
        exact ⟨c, rest, rfl, isBlank_eq_false_of (p := isWordChar) (by decide +kernel) hword.1.1⟩
  obtain ⟨others, hlines⟩ : ∃ others, job.bodyLines = ("package " ++ job.package) :: others :=
    ⟨_, intercalate_append [""] ["package " ++ job.package] _ _⟩
  have hbreak : '\n' ∉ "package ".toList ++ [c] := by
    have hc : '\n' ≠ c := by
      rintro rfl
      exact absurd hblank (by decide)
    simpa using hc
  -- the first character of the name keeps the blank in front of it
  obtain ⟨first, pieces, -, hsplit⟩ := splitAtChar_front hbreak rest
  have hlast : ("package ".toList ++ [c]).getLast? = some c := List.getLast?_concat
  refine ⟨"package ".toList ++ [c] ++ trimEndChars first,
    pieces.map trimEndChars ++ shownLines others, ?_, ?_⟩
  · rw [hlines, shownLines_cons, String.toList_append, hpackage, List.append_cons _ c rest, hsplit,
      List.map_cons, trimEndChars_append_of_getLast? first hlast hblank, List.cons_append]
  · rw [opensPackage, List.append_assoc]
    exact List.isPrefixOf_iff_prefix.mpr (List.prefix_append _ _)

end EnumHelpers.Job

namespace EnumHelpers.Report
open Emission Text

variable {t : SymbolTable} {s : Settings} {code : String} {warnings : List Job.Warning}
  {summary : Summary}

/-- The lines that the command of a run makes, in the layout, with an empty one behind them. -/
def echoLines (s : Settings) : List Line :=
  squeeze false (shownLines ["// Command: " ++ s.command] ++ [[]])

/-- A command on one line, with no blank at its end, is kept as it is. -/
theorem echoLines_of_oneLine (hone : s.OnOneLine)
    (hlast : ∀ c, s.command.toList.getLast? = some c → isBlank c = false) :
    echoLines s = [commandLine s, []] := by
  have hsolid : Solid ("// Command: " ++ s.command) := by
    refine ⟨(oneLine_ofList rfl).append (Settings.oneLine_command_iff.mpr hone), ?_⟩
    obtain ⟨c, hc⟩ := Option.isSome_iff_exists.mp
      (List.getLast?_isSome.mpr s.toList_command_ne_nil)
    obtain ⟨init, hinit⟩ := List.getLast?_eq_some_iff.mp hc
    refine ⟨"// Command: ".toList ++ init, c, ?_, hlast c hc⟩
    rw [String.toList_append, hinit, List.append_assoc]
  have hne : commandLine s ≠ [] := by simp [commandLine]
  rw [echoLines, shownLines_eq_map (List.forall_mem_singleton.mpr hsolid)]
  exact squeeze_cons_full false hne [[]]

/-- The lines of a generated file: that of the generator, those of the command, and those of the
job from its package clause on. -/
theorem linesOf_of_generate (h : generate t s = .ok (.generated code warnings summary)) :
    ∃ job clause more, jobOf t s = .ok job ∧ opensPackage clause = true ∧
      squeeze false (shownLines job.bodyLines) = clause :: more ∧
      linesOf code = generatorLine :: echoLines s ++ clause :: more ++ [[]] := by
  obtain ⟨job, hjob, hfaults, rfl⟩ := job_of_generate h
  obtain ⟨clause, more, hbody, hclause⟩ :=
    Job.shownLines_bodyLines (Job.faults_eq_nil_iff.mp hfaults).1
  have hne : clause ≠ [] := by
    rintro rfl
    cases hclause
  have hfirst : generatorLine ≠ [] := by decide
  have hlines : shownLines job.fileLines =
      (generatorLine :: (shownLines ["// Command: " ++ s.command] ++ [[]])) ++ clause :: more := by
    have hgenerator : shownLines ["// Code generated by enumer; DO NOT EDIT."] =
      [generatorLine] := by decide
    have hempty : shownLines [""] = [[]] := by decide
    rw [Job.fileLines_eq, (fields_of_jobOf hjob).2.1, shownLines_append, hbody,
      show ["// Code generated by enumer; DO NOT EDIT.", "// Command: " ++ s.command, ""] =
        ["// Code generated by enumer; DO NOT EDIT."] ++ (["// Command: " ++ s.command] ++ [""])
        from rfl, shownLines_append, shownLines_append, hgenerator, hempty, List.singleton_append]
  have htidy : tidyLines (textOfLines job.fileLines).toList =
      generatorLine :: echoLines s ++ clause :: squeeze false more := by
    rw [tidyLines_textOfLines job.framed_fileLines, hlines, squeeze_append_cons hne,
      squeeze_cons_full false hfirst, echoLines]
  refine ⟨job, clause, squeeze false more, hjob, hclause, ?_, ?_⟩
  · rw [hbody, squeeze_cons_full false hne]
  · rw [linesOf_tidy (by simp [htidy]), htidy]

/-- Above the package clause stand the line of the generator and those of the command, when none
of these looks like a package clause. -/
theorem linesAbovePackage_of_generate (h : generate t s = .ok (.generated code warnings summary))
    (hecho : ∀ line ∈ echoLines s, opensPackage line = false) :
    linesAbovePackage code = generatorLine :: echoLines s := by
  obtain ⟨job, clause, more, -, hclause, -, hlines⟩ := linesOf_of_generate h
  have hgenerator : opensPackage generatorLine = false := by decide
  have hall : ∀ line ∈ generatorLine :: echoLines s, (!opensPackage line) = true := by
    simpa [hgenerator] using hecho
  rw [linesAbovePackage, hlines, List.append_assoc, List.takeWhile_append_of_pos hall]
  simp [hclause]

/-- A line of a file is one of its job without the blanks at its end. -/
theorem exists_of_mem_linesOf {line : Line}
    (h : generate t s = .ok (.generated code warnings summary)) (hm : line ∈ linesOf code) :
    '\n' ∉ line ∧ ∃ cs, line = trimEndChars cs := by
  refine ⟨notMem_of_mem_splitAtChar hm, ?_⟩
  obtain ⟨job, -, -, rfl⟩ := job_of_generate h
  have hne : tidyLines (textOfLines job.fileLines).toList ≠ [] := by
    rw [tidyLines_textOfLines job.framed_fileLines]
    exact (job.framed_fileLines.squeeze false).ne_nil
  rw [linesOf_tidy hne, List.mem_append, List.mem_singleton] at hm
  rcases hm with hm | rfl
  · obtain ⟨piece, -, rfl⟩ := List.mem_map.mp (mem_squeeze (mem_dropOuterEmpty hm))
    exact ⟨piece, rfl⟩
  · exact ⟨[], rfl⟩

/-- **What stands above the package clause.**  It is the line of the generator, one line with the
whole command and empty lines, if and only if the texts that the command repeats lie on one line and
the command ends in no blank.  Below, the file does not depend on the command. -/
theorem header_iff (h : generate t s = .ok (.generated code warnings summary)) :
    ((∃ empties, linesAbovePackage code = generatorLine :: commandLine s :: empties ∧
        ∀ line ∈ empties, line = []) ↔
      s.OnOneLine ∧ ∀ c, s.command.toList.getLast? = some c → isBlank c = false) ∧
    ∃ job, jobOf t s = .ok job ∧ linesOf code =
      generatorLine :: echoLines s ++ squeeze false (shownLines job.bodyLines) ++ [[]] := by
  obtain ⟨job, clause, more, hjob, -, hbody, hlines⟩ := linesOf_of_generate h
  refine ⟨⟨?_, ?_⟩, job, hjob, by rw [hlines, hbody]⟩
  · rintro ⟨empties, habove, -⟩
    have hmem : commandLine s ∈ linesOf code :=
      (List.takeWhile_subset _) (habove ▸ List.mem_cons_of_mem _ List.mem_cons_self)
    obtain ⟨hbreak, cs, htrim⟩ := exists_of_mem_linesOf h hmem
    rw [commandLine, String.toList_append] at hbreak htrim
    refine ⟨Settings.oneLine_command_iff.mp fun hn => hbreak (List.mem_append_right _ hn), ?_⟩
    intro c hc
    have hend : (trimEndChars cs).getLast? = some c := by
      rw [← htrim, List.getLast?_append, hc]
      rfl
    exact isBlank_of_getLast?_trimEndChars hend
  · rintro ⟨hone, hlast⟩
    have hecho := echoLines_of_oneLine hone hlast
    have hopens : opensPackage (commandLine s) = false := by
      rw [commandLine, String.toList_append]
      rfl
    refine ⟨[[]], ?_, by simp⟩
    rw [linesAbovePackage_of_generate h, hecho]
    rw [hecho]
    rintro line hline
    rcases List.mem_cons.mp hline with rfl | hline
    · exact hopens
    · rw [List.mem_singleton.mp hline]
      rfl

theorem header_iff_pairTable : ∃ code warnings summary,
    generate pairTable pairSettings = .ok (.generated code warnings summary) ∧
    ((∃ empties, linesAbovePackage code =
        generatorLine :: commandLine pairSettings :: empties ∧ ∀ line ∈ empties, line = []) ↔
      pairSettings.OnOneLine ∧
        ∀ c, pairSettings.command.toList.getLast? = some c → isBlank c = false) ∧
    ∃ job, jobOf pairTable pairSettings = .ok job ∧ linesOf code =
      generatorLine :: echoLines pairSettings ++ squeeze false (shownLines job.bodyLines) ++
        [[]] := by
  obtain ⟨code, warnings, summary, h⟩ := generate_pairTable
  exact ⟨code, warnings, summary, h, header_iff h⟩

/-- Settings whose output has a second line. -/
def twoLineSettings : Settings := { pairSettings with output := some "a.go\n//go:build ignore" }

/-- The second line of the output stands above the package clause as a line of its own, which is a
build constraint there. -/
theorem constraint_above_package : ∃ code warnings summary,
    generate pairTable twoLineSettings = .ok (.generated code warnings summary) ∧
    linesAbovePackage code = [generatorLine,
      "// Command: enumer -type=T -linecomment -output=a.go".toList,
      "//go:build ignore".toList, []] := by
  obtain ⟨code, warnings, summary, h⟩ : Succeeds pairTable twoLineSettings :=
    (succeeds_output _).mpr generate_pairTable
  refine ⟨code, warnings, summary, h, ?_⟩
  have hcommand : twoLineSettings.command =
      "enumer -type=T -linecomment -output=a.go\n//go:build ignore" := by
    have hsorted : twoLineSettings.sortedTypeNames = ["T"] := List.mergeSort_singleton "T"
    rw [Settings.command, hsorted]
    decide
  have hecho : echoLines twoLineSettings = [
      "// Command: enumer -type=T -linecomment -output=a.go".toList,
      "//go:build ignore".toList, []] := by
    rw [echoLines, hcommand]
    decide
  have hclause : ∀ line ∈ echoLines twoLineSettings, opensPackage line = false := by
    rw [hecho]
    decide
  rw [linesAbovePackage_of_generate h hclause, hecho]

end EnumHelpers.Report
