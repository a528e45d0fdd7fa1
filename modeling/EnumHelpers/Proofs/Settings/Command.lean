import EnumHelpers.Proofs.Settings.Names
import EnumHelpers.Proofs.Settings.Saved
import EnumHelpers.Proofs.Text.Lines

/-!
# Proofs — the command of a run

The command puts the settings of a run on one line: words with a blank between them, and the type
names with commas between them.  Nothing is quoted.  A text of the settings that holds a blank and a
hyphen behind it looks like two words of the command, and a type name with a comma like two names;
settings without such texts are *plain*.

* `sameRun_iff_plain`: of two settings with one command, of which one is plain, the other asks for
  the same run if and only if it is plain too.
* `exists_twin`: what a command says behind its type names can be all of one type name.
-/

namespace EnumHelpers.Settings
open Text

variable {s s' : Settings}

/-! ### Settings that can be loaded -/

/-- Settings that come of a settings file and overrides. -/
def Loaded (s : Settings) : Prop :=
  ∃ tree overrides file, load tree overrides file = .ok s

/-- All settings can be loaded whose type names are trimmed. -/
theorem loaded_iff : Loaded s ↔ Trimmed s.typeNames := by
  constructor
  · rintro ⟨tree, overrides, file, h⟩
    exact trimmed_of_load h
  · intro h
    have hfields : merge (merge (toJson {}) []) (effective s.toJson) = s.toJson := by
      obtain ⟨_, output⟩ := s
      cases output <;> rfl
    exact ⟨{}, s.toJson, none, by rw [load, fileFields, ok_bind, hfields, ofFields_toJson h]⟩

/-- Settings that ask for one run: all that a command tells is equal.  An empty output is none. -/
structure SameRun (s s' : Settings) : Prop where
  typeNames : s.sortedTypeNames = s'.sortedTypeNames
  trimPrefix : s.trimPrefix = s'.trimPrefix
  lineComment : s.lineComment = s'.lineComment
  json : s.json = s'.json
  yaml : s.yaml = s'.yaml
  sql : s.sql = s'.sql
  output : s.givenOutput = s'.givenOutput
  bitmask : s.bitmask = s'.bitmask

/-! ### The options of a command -/

/-- The option that a truth value stands for, which has no text of its own. -/
def flag (b : Bool) : Option (List Char) := if b then some [] else none

/-- The option that a text stands for, unless it is empty. -/
def given (text : String) : Option (List Char) :=
  if text = "" then none else some text.toList

theorem flag_inj {a b : Bool} (h : flag a = flag b) : a = b := by
  cases a <;> cases b
  all_goals first | rfl | cases h

theorem given_inj {a b : String} (h : given a = given b) : a = b := by
  rw [given, given] at h
  split at h <;> split at h
  · rename_i ha hb
    rw [ha, hb]
  · cases h
  · cases h
  · exact String.toList_inj.mp (Option.some.inj h)

/-- The options of a command: the key of each, without its hyphen, and its text if it is given. -/
def options (s : Settings) : List (List Char × Option (List Char)) := [
  ("type=".toList, some (String.intercalate "," s.sortedTypeNames).toList),
  ("trimprefix=".toList, given s.trimPrefix),
  ("linecomment".toList, flag s.lineComment),
  ("json".toList, flag s.json),
  ("yaml".toList, flag s.yaml),
  ("sql".toList, flag s.sql),
  ("output=".toList, s.givenOutput.map String.toList),
  ("bitmask".toList, flag s.bitmask)]

/-- The words of an option: one, or none if it is not given. -/
def wordsOf (option : List Char × Option (List Char)) : List (List Char) :=
  (option.2.map (option.1 ++ ·)).toList

/-- The words of an option in a command, each behind a blank and a hyphen. -/
def spelled (option : List Char × Option (List Char)) : List Char :=
  (wordsOf option).flatMap (' ' :: '-' :: ·)

/-- What stands in a command for words, each behind a blank. -/
def behindBlanks (words : List String) : List Char := words.flatMap fun w => ' ' :: w.toList

theorem behindBlanks_word {word key : String} (h : word = "-" ++ key) (text : String) :
    behindBlanks [word ++ text] = spelled (key.toList, some text.toList) := by
  simp [behindBlanks, spelled, wordsOf, h]

theorem behindBlanks_flag {word key : String} (h : word = "-" ++ key) (b : Bool) :
    behindBlanks (if b = true then [word] else []) = spelled (key.toList, flag b) := by
  cases b
  · rfl
  · simp [behindBlanks, spelled, wordsOf, flag, h]

theorem behindBlanks_given {word key : String} (h : word = "-" ++ key) (text : String) :
    behindBlanks (if text = "" then [] else [word ++ text]) = spelled (key.toList, given text) := by
  by_cases ht : text = ""
  · simp [behindBlanks, spelled, wordsOf, given, ht]
  · rw [if_neg ht, behindBlanks_word h, given, if_neg ht]

/-- A command is the words of its options, each behind a blank and a hyphen. -/
theorem toList_command (s : Settings) :
    s.command.toList =
      "enumer".toList ++ (s.options.flatMap wordsOf).flatMap (' ' :: '-' :: ·) := by
  have hwords : ∀ words : List String, (String.intercalate " " ("enumer" :: words)).toList =
      "enumer".toList ++ behindBlanks words := by
    intro words
    rw [intercalate_cons_eq_join, String.toList_append, String.toList_join, List.flatMap_map,
      behindBlanks]
    simp
  have happend : ∀ a b, behindBlanks (a ++ b) = behindBlanks a ++ behindBlanks b :=
    fun _ _ => List.flatMap_append
  have hcons : ∀ a b, behindBlanks (a :: b) = behindBlanks [a] ++ behindBlanks b :=
    fun a b => happend [a] b
  have htype : "-type=" = "-" ++ "type=" := rfl
  have hprefix : "-trimprefix=" = "-" ++ "trimprefix=" := rfl
  have hcomment : "-linecomment" = "-" ++ "linecomment" := rfl
  have hjson : "-json" = "-" ++ "json" := rfl
  have hyaml : "-yaml" = "-" ++ "yaml" := rfl
  have hsql : "-sql" = "-" ++ "sql" := rfl
  have houtput : "-output=" = "-" ++ "output=" := rfl
  have hbitmask : "-bitmask" = "-" ++ "bitmask" := rfl
  rw [command]
  simp only [List.cons_append, List.nil_append]
  rw [hwords, hcons, behindBlanks_word htype]
  simp only [happend, behindBlanks_given hprefix, behindBlanks_flag hcomment,
    behindBlanks_flag hjson, behindBlanks_flag hyaml, behindBlanks_flag hsql,
    behindBlanks_flag hbitmask]
  simp only [options, List.flatMap_cons, List.flatMap_append, List.flatMap_nil, List.append_nil,
    List.append_assoc]
  cases s.givenOutput with
  | none => rfl
  | some name =>
    simp only [behindBlanks_word houtput]
    rfl

theorem toList_command_ne_nil (s : Settings) : s.command.toList ≠ [] := by
  rw [toList_command]
  exact List.append_ne_nil_of_left_ne_nil (by decide) _

theorem map_fst_options (s s' : Settings) : s.options.map Prod.fst = s'.options.map Prod.fst := rfl

/-- No key begins another one. -/
theorem pairwise_options (s : Settings) :
    (s.options.map Prod.fst).Pairwise fun a b => ¬ a <+: b ∧ ¬ b <+: a := by
  rw [show s.options.map Prod.fst = ["type=".toList, "trimprefix=".toList, "linecomment".toList,
    "json".toList, "yaml".toList, "sql".toList, "output=".toList, "bitmask".toList] from rfl]
  decide

/-- No word of options is one of another option, if no key begins another. -/
theorem notMem_flatMap_wordsOf {key : List Char} {os : List (List Char × Option (List Char))}
    (h : ∀ other ∈ os.map Prod.fst, ¬ key <+: other ∧ ¬ other <+: key) (own : List Char) :
    key ++ own ∉ os.flatMap wordsOf := by
  intro hmem
  obtain ⟨⟨other, text⟩, hin, hword⟩ := List.mem_flatMap.mp hmem
  obtain ⟨own', -, hword⟩ : ∃ own', own' ∈ text ∧ other ++ own' = key ++ own := by
    simpa [wordsOf] using hword
  have hother := h other (List.mem_map_of_mem (f := Prod.fst) hin)
  have hbegins : other <+: key ++ own := ⟨own', hword⟩
  rcases List.prefix_or_prefix_of_prefix hbegins (List.prefix_append _ _) with h | h
  · exact hother.2 h
  · exact hother.1 h

/-- Options with the same keys, of which none begins another, are told by their words. -/
theorem eq_of_flatMap_wordsOf {os os' : List (List Char × Option (List Char))}
    (hkeys : os.map Prod.fst = os'.map Prod.fst)
    (hpair : (os.map Prod.fst).Pairwise fun a b => ¬ a <+: b ∧ ¬ b <+: a)
    (h : os.flatMap wordsOf = os'.flatMap wordsOf) : os = os' := by
  induction os generalizing os' with
  | nil => exact (List.map_eq_nil_iff.mp hkeys.symm).symm
  | cons o os ih =>
      obtain ⟨o', os', rfl⟩ := List.exists_cons_of_ne_nil (l := os') (by rintro rfl; cases hkeys)
      obtain ⟨key, text⟩ := o
      obtain ⟨key', text'⟩ := o'
      obtain ⟨rfl, htail⟩ : key = key' ∧ os.map Prod.fst = os'.map Prod.fst := by simpa using hkeys
      obtain ⟨hkey, hrest⟩ := List.pairwise_cons.mp hpair
      rw [List.flatMap_cons, List.flatMap_cons] at h
      cases text with
      | none =>
          cases text' with
          | none => rw [ih htail hrest h]
          | some own =>
              have hmem : key ++ own ∈ os.flatMap wordsOf := by simp [wordsOf] at h; simp [h]
              exact absurd hmem (notMem_flatMap_wordsOf hkey own)
      | some own =>
          cases text' with
          | none =>
              have hmem : key ++ own ∈ os'.flatMap wordsOf := by simp [wordsOf] at h; simp [← h]
              exact absurd hmem (notMem_flatMap_wordsOf (htail ▸ hkey) own)
          | some own' =>
              obtain ⟨hown, h⟩ := List.cons.inj h
              rw [List.append_cancel_left hown, ih htail hrest h]

/-! ### Names between commas -/

theorem toList_joined_ne_nil {names : List String} (hne : names ≠ [])
    (h : ∀ name ∈ names, name ≠ "") : (String.intercalate "," names).toList ≠ [] := by
  obtain ⟨first, rest, rfl⟩ := List.exists_cons_of_ne_nil hne
  rw [intercalate_cons_eq_join, String.toList_append]
  have hfirst : first ≠ "" := h first List.mem_cons_self
  simp [hfirst]

theorem splitAtChar_joined {names : List String} (hne : names ≠ [])
    (h : ∀ name ∈ names, ',' ∉ name.toList) :
    splitAtChar ',' (String.intercalate "," names).toList = names.map String.toList := by
  rw [String.toList_intercalate]
  exact splitAtChar_intercalate (by simpa using hne) (by simpa using h)

/-- Names that are not empty and hold no comma are told by the text that joins them by commas. -/
theorem eq_of_joined {names names' : List String}
    (h : ∀ name ∈ names, name ≠ "" ∧ ',' ∉ name.toList)
    (h' : ∀ name ∈ names', name ≠ "" ∧ ',' ∉ name.toList)
    (heq : String.intercalate "," names = String.intercalate "," names') : names = names' := by
  by_cases hn : names = [] <;> by_cases hn' : names' = []
  · rw [hn, hn']
  · have hne := toList_joined_ne_nil hn' fun name hname => (h' name hname).1
    rw [← heq, hn] at hne
    exact absurd rfl hne
  · have hne := toList_joined_ne_nil hn fun name hname => (h name hname).1
    rw [heq, hn'] at hne
    exact absurd rfl hne
  · have hsplit := splitAtChar_joined hn fun name hname => (h name hname).2
    rw [heq, splitAtChar_joined hn' fun name hname => (h' name hname).2] at hsplit
    exact (List.map_injective_iff.mpr fun _ _ => String.toList_inj.mp) hsplit.symm

/-! ### Words between blanks and hyphens -/

/-- A text without a blank that has a hyphen behind it. -/
def Unbroken (cs : List Char) : Prop := ¬ [' ', '-'] <:+: cs

instance (cs : List Char) : Decidable (Unbroken cs) := inferInstanceAs (Decidable (¬ _))

theorem unbroken_cons {c : Char} {cs : List Char} :
    Unbroken (c :: cs) ↔ ¬ (c = ' ' ∧ ['-'] <+: cs) ∧ Unbroken cs := by
  rw [Unbroken, Unbroken, List.infix_cons_iff, List.cons_prefix_cons, not_or, eq_comm]

theorem unbroken_append_of_notMem {key : List Char} (h : ' ' ∉ key) (text : List Char) :
    Unbroken (key ++ text) ↔ Unbroken text := by
  induction key with
  | nil => rfl
  | cons c key ih =>
      obtain ⟨hc, hkey⟩ : ' ' ≠ c ∧ ' ' ∉ key := by simpa using h
      rw [List.cons_append, unbroken_cons, ih hkey]
      exact and_iff_right fun h => hc h.1.symm

theorem unbroken_append_comma {a b : List Char} :
    Unbroken (a ++ ',' :: b) ↔ Unbroken a ∧ Unbroken b := by
  induction a with
  | nil => simp [Unbroken, List.infix_cons_iff]
  | cons c a ih =>
      have hbegins : ['-'] <+: a ++ ',' :: b ↔ ['-'] <+: a := by cases a <;> simp
      rw [List.cons_append, unbroken_cons, unbroken_cons, ih, hbegins, and_assoc]

theorem unbroken_intercalate {names : List (List Char)} (h : ∀ name ∈ names, Unbroken name) :
    Unbroken ([','].intercalate names) := by
  induction names with
  | nil => decide
  | cons name rest ih =>
      have hname : Unbroken name := h name List.mem_cons_self
      have hrest : Unbroken ([','].intercalate rest) :=
        ih fun x hx => h x (List.mem_cons_of_mem _ hx)
      cases rest with
      | nil => simpa using hname
      | cons next rest =>
          rw [List.intercalate_cons_cons, List.append_assoc, List.singleton_append]
          exact unbroken_append_comma.mpr ⟨hname, hrest⟩

/-- What can stand behind a word: nothing, or a blank and a hyphen. -/
def Break (cs : List Char) : Prop := cs = [] ∨ [' ', '-'] <+: cs

theorem eq_nil_of_break {a more rest : List Char} (ha : Unbroken (a ++ more))
    (hmore : Break (more ++ rest)) (hrest : Break rest) : more = [] := by
  rcases hmore with hnil | hbreak
  · exact (List.append_eq_nil_iff.mp hnil).1
  · match more with
    | [] => rfl
    | [c] =>
        -- the hyphen would begin the rest
        have hhyphen : ['-'] <+: rest := (List.cons_prefix_cons.mp hbreak).2
        rcases hrest with rfl | hrest
        · cases List.prefix_nil.mp hhyphen
        · obtain ⟨x, rfl⟩ := hrest
          cases (List.cons_prefix_cons.mp hhyphen).1
    | c :: d :: more =>
        have hbegins : [' ', '-'] <+: c :: d :: more :=
          List.prefix_of_prefix_length_le hbreak (List.prefix_append _ _) (by simp)
        exact absurd (hbegins.isInfix.trans (List.suffix_append a _).isInfix) ha

/-- A text is cut in one place only into an unbroken word and what stands behind it. -/
theorem eq_of_append_break {a b rest rest' : List Char} (ha : Unbroken a) (hb : Unbroken b)
    (hrest : Break rest) (hrest' : Break rest') (h : a ++ rest = b ++ rest') : a = b := by
  rcases List.append_eq_append_iff.mp h with ⟨more, rfl, rfl⟩ | ⟨more, rfl, rfl⟩
  · rw [eq_nil_of_break hb hrest hrest', List.append_nil]
  · rw [eq_nil_of_break ha hrest' hrest, List.append_nil]

theorem break_flatMap (words : List (List Char)) :
    Break (words.flatMap (' ' :: '-' :: ·)) := by
  cases words with
  | nil => exact .inl rfl
  | cons word rest => exact .inr ⟨_, rfl⟩

/-- Unbroken words are told by the text in which each stands behind a blank and a hyphen. -/
theorem eq_of_flatMap_break {words words' : List (List Char)} (h : ∀ w ∈ words, Unbroken w)
    (h' : ∀ w ∈ words', Unbroken w)
    (heq : words.flatMap (' ' :: '-' :: ·) = words'.flatMap (' ' :: '-' :: ·)) :
    words = words' := by
  induction words generalizing words' with
  | nil =>
      cases words' with
      | nil => rfl
      | cons word' rest' => cases heq
  | cons word rest ih =>
      cases words' with
      | nil => cases heq
      | cons word' rest' =>
          simp only [List.flatMap_cons, List.cons_append, List.cons.injEq, true_and] at heq
          have hword : word = word' :=
            eq_of_append_break (h word List.mem_cons_self) (h' word' List.mem_cons_self)
              (break_flatMap rest) (break_flatMap rest') heq
          subst hword
          rw [ih (fun w hw => h w (List.mem_cons_of_mem _ hw))
            (fun w hw => h' w (List.mem_cons_of_mem _ hw)) (List.append_cancel_left heq)]

/-! ### Plain settings -/

/-- Settings whose texts hold nothing that a command uses to tell its parts apart. -/
structure Plain (s : Settings) : Prop where
  name : ∀ name ∈ s.typeNames, ',' ∉ name.toList ∧ Unbroken name.toList
  trimPrefix : Unbroken s.trimPrefix.toList
  output : ∀ name ∈ s.givenOutput, Unbroken name.toList

namespace Plain

/-- Whether settings are plain is told by the run they ask for. -/
theorem of_sameRun (h : Plain s) (hsame : SameRun s s') : Plain s' where
  name name hname := by
    have hsorted : name ∈ s'.sortedTypeNames := (perm_sortedTypeNames s').mem_iff.mpr hname
    exact h.name name ((perm_sortedTypeNames s).mem_iff.mp (hsame.typeNames ▸ hsorted))
  trimPrefix := hsame.trimPrefix ▸ h.trimPrefix
  output := hsame.output ▸ h.output

theorem unbroken_of_given {text : String} (h : Unbroken text.toList) :
    ∀ own ∈ given text, Unbroken own := by
  rw [given]
  split
  · simp
  · simpa using h

theorem unbroken_of_flag (b : Bool) : ∀ own ∈ flag b, Unbroken own := by
  cases b <;> decide

/-- The texts of the options of plain settings are unbroken, as their keys are. -/
theorem unbroken_of_mem_options (h : Plain s) :
    ∀ option ∈ s.options, ' ' ∉ option.1 ∧ ∀ own ∈ option.2, Unbroken own := by
  have hnames : ∀ own ∈ some (String.intercalate "," s.sortedTypeNames).toList, Unbroken own := by
    simp only [Option.mem_def, Option.some.injEq, forall_eq', String.toList_intercalate]
    refine unbroken_intercalate fun cs hcs => ?_
    obtain ⟨name, hname, rfl⟩ := List.mem_map.mp hcs
    exact (h.name name ((perm_sortedTypeNames s).mem_iff.mp hname)).2
  have houtput : ∀ own ∈ s.givenOutput.map String.toList, Unbroken own := by
    intro own hown
    obtain ⟨name, hname, rfl⟩ := Option.mem_map.mp hown
    exact h.output name hname
  simp only [options, List.forall_mem_cons]
  refine ⟨⟨by decide, hnames⟩, ⟨by decide, unbroken_of_given h.trimPrefix⟩,
    ⟨by decide, unbroken_of_flag _⟩, ⟨by decide, unbroken_of_flag _⟩,
    ⟨by decide, unbroken_of_flag _⟩, ⟨by decide, unbroken_of_flag _⟩, ⟨by decide, houtput⟩,
    ⟨by decide, unbroken_of_flag _⟩, by simp⟩

/-- The words of plain settings are unbroken. -/
theorem unbroken_of_mem (h : Plain s) : ∀ w ∈ s.options.flatMap wordsOf, Unbroken w := by
  intro w hw
  obtain ⟨⟨key, text⟩, hoption, hw⟩ := List.mem_flatMap.mp hw
  obtain ⟨own, hown, rfl⟩ : ∃ own, own ∈ text ∧ key ++ own = w := by simpa [wordsOf] using hw
  obtain ⟨hkey, htext⟩ := h.unbroken_of_mem_options _ hoption
  exact (unbroken_append_of_notMem hkey own).mpr (htext own hown)

/-- Plain settings with one command have the same options. -/
theorem options_eq (h : Plain s) (h' : Plain s') (hcommand : s.command = s'.command) :
    s.options = s'.options := by
  have htext := String.toList_inj.mpr hcommand
  rw [toList_command, toList_command] at htext
  refine eq_of_flatMap_wordsOf (map_fst_options s s') (pairwise_options s) ?_
  exact eq_of_flatMap_break h.unbroken_of_mem h'.unbroken_of_mem (List.append_cancel_left htext)

theorem sortedName (h : Plain s) (hs : Loaded s) :
    ∀ name ∈ s.sortedTypeNames, name ≠ "" ∧ ',' ∉ name.toList := by
  intro name hname
  have hgiven : name ∈ s.typeNames := (perm_sortedTypeNames s).mem_iff.mp hname
  exact ⟨(loaded_iff.mp hs name hgiven).2, (h.name name hgiven).1⟩

end Plain

/-- Of two settings with one command, of which one is plain, the other asks for the same run if and
only if it is plain too. -/
theorem sameRun_iff_plain (hs : Loaded s) (hs' : Loaded s') (hcommand : s.command = s'.command)
    (hplain : Plain s) : SameRun s s' ↔ Plain s' := by
  refine ⟨hplain.of_sameRun, fun hplain' => ?_⟩
  have hoptions := hplain.options_eq hplain' hcommand
  simp only [options, List.cons.injEq, Prod.mk.injEq, true_and, and_true, Option.some.injEq,
    String.toList_inj] at hoptions
  obtain ⟨htypes, hprefix, hcomment, hjson, hyaml, hsql, houtput, hbitmask⟩ := hoptions
  exact {
    typeNames := eq_of_joined (hplain.sortedName hs) (hplain'.sortedName hs') htypes
    trimPrefix := given_inj hprefix
    lineComment := flag_inj hcomment
    json := flag_inj hjson
    yaml := flag_inj hyaml
    sql := flag_inj hsql
    output := Option.map_injective (fun _ _ => String.toList_inj.mp) houtput
    bitmask := flag_inj hbitmask }

/-- A command does not tell in which order the type names are given. -/
theorem command_of_perm {names : List String} (h : names.Perm s.typeNames) :
    { s with typeNames := names }.command = s.command := by
  rw [command, command, sortedTypeNames_of_perm h]
  rfl

/-- Settings with a blank in a text, and no hyphen behind it. -/
def pairedSettings : Settings where
  typeNames := ["B", "A"]
  trimPrefix := "x y"
  json := true

theorem sameRun_iff_plain_pairedSettings :
    (Loaded pairedSettings ∧ Loaded { pairedSettings with typeNames := ["A", "B"] } ∧
      pairedSettings.command = { pairedSettings with typeNames := ["A", "B"] }.command ∧
      Plain pairedSettings) ∧
    (SameRun pairedSettings { pairedSettings with typeNames := ["A", "B"] } ↔
      Plain { pairedSettings with typeNames := ["A", "B"] }) := by
  have hs : Loaded pairedSettings := loaded_iff.mpr (by simp [pairedSettings, Trimmed]; decide)
  have hs' : Loaded { pairedSettings with typeNames := ["A", "B"] } :=
    loaded_iff.mpr (by simp [Trimmed]; decide)
  have hcommand : pairedSettings.command =
      { pairedSettings with typeNames := ["A", "B"] }.command :=
    (command_of_perm (List.Perm.swap "B" "A" [])).symm
  have hplain : Plain pairedSettings := {
    name := by decide
    trimPrefix := by decide
    output := by decide }
  exact ⟨⟨hs, hs', hcommand, hplain⟩, sameRun_iff_plain hs hs' hcommand hplain⟩

/-- Two different runs have one command: a trim prefix with a blank and an option behind it, and
the option itself. -/
theorem command_of_two_runs : ∃ s s' : Settings, Loaded s ∧ Loaded s' ∧ s.command = s'.command ∧
    s.trimPrefix = "x -json" ∧ s'.trimPrefix = "x" ∧ ¬ SameRun s s' := by
  have hnames : Trimmed ["T"] := by simp [Trimmed]; decide
  have hsorted : sortTexts ["T"] = ["T"] := List.mergeSort_singleton "T"
  refine ⟨{ typeNames := ["T"], trimPrefix := "x -json" },
    { typeNames := ["T"], trimPrefix := "x", json := true }, loaded_iff.mpr hnames,
    loaded_iff.mpr hnames, ?_, rfl, rfl, ?_⟩
  · simp only [command, sortedTypeNames, hsorted]
    decide
  · intro h
    cases h.json

/-! ### Twins -/

theorem command_singleton (name : String) :
    ({ typeNames := [name] } : Settings).command = "enumer -type=" ++ name := by
  have hsorted : sortTexts [name] = [name] := List.mergeSort_singleton name
  rw [← String.toList_inj]
  simp [command, sortedTypeNames, hsorted, givenOutput]

/-- A command has the first type name behind its first word and a key. -/
theorem exists_toList_command {first : String} {others : List String}
    (h : s.sortedTypeNames = first :: others) :
    ∃ rest, s.command.toList = "enumer -type=".toList ++ (first.toList ++ rest) := by
  refine ⟨(String.join (others.map ("," ++ ·))).toList ++
    (s.options.tail.flatMap wordsOf).flatMap (' ' :: '-' :: ·), ?_⟩
  simp [toList_command, options, wordsOf, h, intercalate_cons_eq_join]

/-- What a command says behind its first word can be all of one type name, so that another run has
the same command. -/
theorem exists_twin (hs : Loaded s) (hnames : s.typeNames ≠ [])
    (hend : ∀ c, s.command.toList.getLast? = some c → isBlank c = false)
    (hmore : ∀ name, s.typeNames = [name] → s.command ≠ "enumer -type=" ++ name) :
    ∃ s', Loaded s' ∧ s'.command = s.command ∧ ¬ SameRun s s' := by
  have hperm := perm_sortedTypeNames s
  obtain ⟨first, others, hcons⟩ : ∃ first others, s.sortedTypeNames = first :: others :=
    List.exists_cons_of_ne_nil fun hnil => hnames (hnil ▸ hperm).nil_eq.symm
  obtain ⟨rest, hrest⟩ := exists_toList_command hcons
  -- the first type name begins in no blank
  obtain ⟨htrim, hne⟩ : Text.trim first = first ∧ first ≠ "" :=
    loaded_iff.mp hs first (hperm.mem_iff.mp (hcons ▸ List.mem_cons_self))
  have hchars : trimChars first.toList = first.toList := by
    rw [← String.toList_inj, Text.trim, String.toList_ofList] at htrim
    exact htrim
  obtain ⟨c, cs, hfirst⟩ := List.exists_cons_of_ne_nil (l := first.toList) (by simpa using hne)
  have hhead : isBlank c = false := isBlank_of_head?_trimChars (by rw [hchars, hfirst]; rfl)
  have hcommand : "enumer -type=" ++ String.ofList (first.toList ++ rest) = s.command := by
    rw [← String.toList_inj]
    simp [hrest]
  refine ⟨{ typeNames := [String.ofList (first.toList ++ rest)] }, ?_, ?_, ?_⟩
  · have hlast : ∀ c, (first.toList ++ rest).getLast? = some c → isBlank c = false := by
      intro c hc
      refine hend c ?_
      rw [hrest, List.getLast?_append, hc]
      rfl
    rw [loaded_iff, Trimmed, List.forall_mem_singleton, Text.trim, String.toList_ofList,
      trimChars_of_ends (by simpa [hfirst] using hhead) hlast]
    simp [hfirst, String.ofList_eq_empty_iff]
  · rw [command_singleton, hcommand]
  · intro hsame
    have hsingle : s.sortedTypeNames = [String.ofList (first.toList ++ rest)] :=
      hsame.typeNames.trans (List.mergeSort_singleton _)
    rw [hsingle] at hperm
    exact hmore _ (List.singleton_perm.mp hperm).symm hcommand.symm

end EnumHelpers.Settings
