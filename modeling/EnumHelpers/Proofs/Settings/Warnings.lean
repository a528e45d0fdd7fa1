import EnumHelpers.Proofs.Emission.Naming
import EnumHelpers.Proofs.Enum.Trimming

/-!
# Proofs — warnings about settings

The warnings about type names and about the prefix take a name for a word of plain letters and
digits.  The generated file takes words of letters of any script, and none that are reserved.  So
the plain words are the words without *foreign* characters, and the two views part at reserved words
and at words with foreign characters.

* `isPlainWord_iff`: the plain words among all words.
* `badTypeName_reported_iff`: when the warning about a type name agrees with its refusal.
* `exists_trimmed_iff`: which prefixes are removed from some name.
* `uselessTrimPrefix_iff`: when the warning about the prefix is true.
-/

namespace EnumHelpers

namespace Emission
open Text

variable {first other first' other' : Char → Bool} {cs ds : List Char}

/-! ### Words -/

theorem withoutLastLineFeed_isPrefix (cs : List Char) : withoutLastLineFeed cs <+: cs := by
  rw [withoutLastLineFeed]
  split
  · exact List.dropLast_prefix cs
  · exact List.prefix_rfl

theorem mem_withoutLastLineFeed {c : Char} (h : c ∈ cs) :
    c ∈ withoutLastLineFeed cs ∨ c = '\n' := by
  rw [withoutLastLineFeed]
  split
  · rename_i hlast
    obtain ⟨init, rfl⟩ := List.getLast?_eq_some_iff.mp hlast
    simpa using h
  · exact .inl h

theorem withoutLastLineFeed_prefix (h : cs <+: ds) :
    withoutLastLineFeed cs <+: withoutLastLineFeed ds := by
  obtain ⟨tail, rfl⟩ := h
  by_cases htail : tail = []
  · simp [htail]
  · refine (withoutLastLineFeed_isPrefix cs).trans ?_
    rw [withoutLastLineFeed]
    split
    · rw [List.dropLast_append_of_ne_nil htail]
      exact List.prefix_append _ _
    · exact List.prefix_append _ _

/-- The beginnings of a word are words. -/
theorem isWordOf_of_isPrefix (h : cs <+: ds) (hne : cs ≠ [])
    (hword : isWordOf first other ds = true) : isWordOf first other cs = true := by
  obtain ⟨c, rest, rfl⟩ := List.exists_cons_of_ne_nil hne
  obtain ⟨tail, rfl⟩ := h
  rw [List.cons_append, isWordOf, Bool.and_eq_true, List.all_eq_true] at hword
  rw [isWordOf, Bool.and_eq_true, List.all_eq_true]
  have hrest := withoutLastLineFeed_prefix (List.prefix_append rest tail)
  exact ⟨hword.1, fun d hd => hword.2 d (hrest.subset hd)⟩

theorem isWordOf_congr (h : ∀ c ∈ cs, first c = first' c ∧ other c = other' c) :
    isWordOf first other cs = isWordOf first' other' cs := by
  cases cs with
  | nil => rfl
  | cons c rest =>
      obtain ⟨hfirst, hrest⟩ := List.forall_mem_cons.mp h
      have hall : (withoutLastLineFeed rest).all other = (withoutLastLineFeed rest).all other' := by
        rw [Bool.eq_iff_iff, List.all_eq_true, List.all_eq_true]
        refine forall₂_congr fun d hd => ?_
        rw [(hrest d ((withoutLastLineFeed_isPrefix rest).subset hd)).2]
      rw [isWordOf, isWordOf, hfirst.1, hall]

/-- What holds of the characters that a word is made of, and of the line feed, holds of all
characters of the word. -/
theorem forall_mem_of_isWordOf {P : Char → Prop} (hfirst : ∀ c, first c = true → P c)
    (hother : ∀ c, other c = true → P c) (hbreak : P '\n') (h : isWordOf first other cs = true) :
    ∀ c ∈ cs, P c := by
  cases cs with
  | nil => cases h
  | cons c rest =>
      rw [isWordOf, Bool.and_eq_true, List.all_eq_true] at h
      refine List.forall_mem_cons.mpr ⟨hfirst c h.1, fun d hd => ?_⟩
      rcases mem_withoutLastLineFeed hd with hd | rfl
      · exact hother d (h.2 d hd)
      · exact hbreak

/-- The texts that are passed as names are the words that are not reserved. -/
theorem isIdentifier_iff {s : String} :
    isIdentifier s = true ↔ isWord s = true ∧ s ∉ reservedWords := by
  simp [isIdentifier]

/-- A reserved word with a low line behind it is a name. -/
theorem isIdentifier_lowLine {s : String} (h : s ∈ reservedWords) :
    isIdentifier (s ++ "_") = true := by
  have hall : ∀ s ∈ reservedWords, isIdentifier (s ++ "_") = true := by decide +kernel
  exact hall s h

end Emission

namespace Settings
open Emission Text

variable {s : Settings} {name p : String}

/-! ### Plain words -/

/-- A text has a character beyond the first 128. -/
def Foreign (text : String) : Prop := ∃ c ∈ text.toList, 128 ≤ c.toNat

instance (text : String) : Decidable (Foreign text) :=
  inferInstanceAs (Decidable (∃ c ∈ text.toList, _))

/-- A plain letter or digit. -/
def isPlainLetterOrDigit (c : Char) : Bool := isPlainLetter c || ('0' ≤ c && c ≤ '9')

/-- Among the first 128 characters the plain letters are the characters that begin a word, and with
the plain digits they are those of a word. -/
theorem plain_eq_of_lt {c : Char} (h : c.toNat < 128) :
    isPlainLetter c = (isWordChar c && !isDecimal c) ∧ isPlainLetterOrDigit c = isWordChar c := by
  have hall : ∀ n < 128, isPlainLetter (Char.ofNat n) =
      (isWordChar (Char.ofNat n) && !isDecimal (Char.ofNat n)) ∧
      isPlainLetterOrDigit (Char.ofNat n) = isWordChar (Char.ofNat n) := by
    decide +kernel
  simpa only [Char.ofNat_toNat] using hall c.toNat h

theorem toNat_lt_of_isPlainLetterOrDigit {c : Char} (h : isPlainLetterOrDigit c = true) :
    c.toNat < 128 := by
  have hle : ∀ d : Char, d.toNat < 128 → c ≤ d → c.toNat < 128 := fun d hd hcd =>
    Nat.lt_of_le_of_lt (UInt32.le_iff_toNat_le.mp hcd) hd
  simp only [isPlainLetterOrDigit, isPlainLetter, Bool.or_eq_true, Bool.and_eq_true, beq_iff_eq,
    decide_eq_true_eq] at h
  rcases h with ((rfl | ⟨-, h⟩) | ⟨-, h⟩) | ⟨-, h⟩
  · decide
  · exact hle 'z' (by decide) h
  · exact hle 'Z' (by decide) h
  · exact hle '9' (by decide) h

/-- **The plain words** are the words without foreign characters. -/
theorem isPlainWord_iff {text : String} :
    isPlainWord text = true ↔ isWord text = true ∧ ¬ Foreign text := by
  have hplain : (¬ Foreign text) → isPlainWord text = isWord text := by
    intro h
    refine isWordOf_congr fun c hc => plain_eq_of_lt ?_
    exact Nat.not_le.mp fun hle => h ⟨c, hc, hle⟩
  constructor
  · intro h
    have hforeign : ¬ Foreign text := by
      rintro ⟨c, hc, hle⟩
      have hlt : ∀ c ∈ text.toList, c.toNat < 128 := by
        refine forall_mem_of_isWordOf (fun c hl => ?_)
          (fun c => toNat_lt_of_isPlainLetterOrDigit) (by decide) h
        exact toNat_lt_of_isPlainLetterOrDigit (by rw [isPlainLetterOrDigit, hl, Bool.true_or])
      exact Nat.not_le.mpr (hlt c hc) hle
    exact ⟨hplain hforeign ▸ h, hforeign⟩
  · rintro ⟨hword, hforeign⟩
    rw [hplain hforeign, hword]

/-! ### Warnings -/

/-- The character that the wording of a warning begins with; it tells the kind of the warning. -/
def Warning.initial : Warning → Char
  | .noTypeNames => 'N'
  | .badTypeName _ => 'I'
  | .uselessTrimPrefix _ => 'T'
  | .outputSuffix _ => 'O'

theorem Warning.head?_message (w : Warning) : w.message.toList.head? = some w.initial := by
  cases w with
  | noTypeNames => rfl
  | badTypeName name =>
      change ("Invalid Go type name: " ++ name).toList.head? = _
      rw [String.toList_append]
      rfl
  | uselessTrimPrefix text =>
      change ("Trim prefix " ++ quoted text ++ " can never match a Go name").toList.head? = _
      rw [String.toList_append, String.toList_append]
      rfl
  | outputSuffix name =>
      change ("Output file " ++ name ++ " does not end in .go").toList.head? = _
      rw [String.toList_append, String.toList_append]
      rfl

theorem Warning.initial_eq_of_message {w w' : Warning} (h : w.message = w'.message) :
    w.initial = w'.initial := by
  have hhead := w.head?_message
  rw [h, w'.head?_message] at hhead
  exact (Option.some.inj hhead).symm

theorem badTypeName_mem_warnings :
    .badTypeName name ∈ s.warnings ↔ name ∈ s.typeNames ∧ isPlainWord name = false := by
  rw [warnings]
  cases s.givenOutput <;> simp

theorem uselessTrimPrefix_mem_warnings :
    .uselessTrimPrefix p ∈ s.warnings ↔
      (s.trimPrefix ≠ "" ∧ isPlainWord s.trimPrefix = false) ∧ p = s.trimPrefix := by
  rw [warnings]
  cases s.givenOutput <;> simp

/-- Which type names are reported. -/
theorem badTypeName_mem_messages :
    (Warning.badTypeName name).message ∈ s.warnings.map Warning.message ↔
      name ∈ s.typeNames ∧ isPlainWord name = false := by
  rw [← badTypeName_mem_warnings, List.mem_map]
  constructor
  · rintro ⟨w, hw, h⟩
    have hkind := Warning.initial_eq_of_message h
    cases w with
    | badTypeName name' =>
        change "Invalid Go type name: " ++ name' = "Invalid Go type name: " ++ name at h
        exact (String.append_right_inj _).mp h ▸ hw
    | noTypeNames | uselessTrimPrefix _ | outputSuffix _ => cases hkind
  · exact fun hw => ⟨_, hw, rfl⟩

/-- When the prefix is reported. -/
theorem uselessTrimPrefix_mem_messages :
    (Warning.uselessTrimPrefix s.trimPrefix).message ∈ s.warnings.map Warning.message ↔
      s.trimPrefix ≠ "" ∧ isPlainWord s.trimPrefix = false := by
  rw [List.mem_map]
  constructor
  · rintro ⟨w, hw, h⟩
    have hkind := Warning.initial_eq_of_message h
    cases w with
    | uselessTrimPrefix p =>
        exact (uselessTrimPrefix_mem_warnings.mp hw).1
    | noTypeNames | badTypeName _ | outputSuffix _ => cases hkind
  · exact fun hp => ⟨_, uselessTrimPrefix_mem_warnings.mpr ⟨hp, rfl⟩, rfl⟩

/-! ### Type names -/

/-- A name is reported when it is refused, unless it is reserved, or passed with a foreign
character. -/
theorem isPlainWord_iff_isIdentifier :
    (isPlainWord name = false ↔ isIdentifier name = false) ↔
      ¬ (name ∈ reservedWords ∨ isIdentifier name = true ∧ Foreign name) := by
  have hreserved : name ∈ reservedWords → isPlainWord name = true := by
    have hall : ∀ name ∈ reservedWords, isPlainWord name = true := by decide +kernel
    exact hall name
  rw [← Bool.not_eq_true, ← Bool.not_eq_true, not_iff_not, isPlainWord_iff, isIdentifier_iff]
  rw [isPlainWord_iff] at hreserved
  tauto

/-- Which type names of a job are refused. -/
theorem badTypeName_mem_faults {job : Job} :
    .badTypeName name ∈ job.faults ↔ name ∈ job.typeNames ∧ isIdentifier name = false := by
  have hpackage : .badTypeName name ∉ packageFaults job.package := by
    rw [packageFaults]
    split <;> simp
  have hconstants : ∀ entry, .badTypeName name ∉ Job.constantFaults entry := by
    intro entry
    simp [Job.constantFaults]
  have htype : ∀ name', .badTypeName name ∈ job.typeFaults name' ↔
      name = name' ∧ isIdentifier name' = false := by
    intro name'
    simp [Job.typeFaults, and_comm]
  simp only [Job.faults, List.mem_append, List.mem_flatMap, hpackage, hconstants, htype]
  simp

/-- **Which type names are reported.**  The warning about a type name is there when the name is
refused in a job, and only then, unless the name is reserved, or has a foreign character and is
passed. -/
theorem badTypeName_reported_iff (s : Settings) (name : String) :
    (("Invalid Go type name: " ++ name ∈ s.warnings.map Warning.message ↔
        name ∈ s.typeNames ∧ isIdentifier name = false) ↔
      ¬ (name ∈ s.typeNames ∧ (name ∈ reservedWords ∨ isIdentifier name = true ∧ Foreign name))) ∧
    ∀ job : Job, .badTypeName name ∈ job.faults ↔
      name ∈ job.typeNames ∧ isIdentifier name = false := by
  refine ⟨?_, fun job => badTypeName_mem_faults⟩
  refine (iff_congr badTypeName_mem_messages Iff.rfl).trans ?_
  rw [and_congr_right_iff, isPlainWord_iff_isIdentifier, not_and]

/-- A reserved word is refused and not reported, and a name with a foreign character is passed and
reported. -/
theorem reserved_passed_and_foreign_reported :
    ({ typeNames := ["type", "Ünicode"] } : Settings).warnings.map Warning.message =
      ["Invalid Go type name: Ünicode"] ∧
    isIdentifier "type" = false ∧ isIdentifier "Ünicode" = true := by
  decide +kernel

/-! ### The prefix -/

/-- The prefixes that are removed from some name are the words. -/
theorem exists_trimmed_iff :
    (∃ name, isIdentifier name = true ∧ Enum.display name p none false ≠ name) ↔
      isWord p = true := by
  constructor
  · rintro ⟨name, hname, hdisplay⟩
    obtain ⟨hp, hprefix⟩ := not_or.mp (mt Enum.dropPrefix_eq_self_iff.mpr hdisplay)
    have hword : isWord name = true := (isIdentifier_iff.mp hname).1
    exact isWordOf_of_isPrefix (not_not.mp hprefix) (mt String.toList_eq_nil_iff.mp hp) hword
  · intro hword
    have hp : p ≠ "" := by
      rintro rfl
      cases hword
    have htrimmed : ∀ tail, Enum.display (p ++ tail) p none false ≠ p ++ tail := by
      intro tail h
      refine (Enum.dropPrefix_eq_self_iff.mp h).elim hp fun hprefix => hprefix ?_
      rw [String.toList_append]
      exact List.prefix_append _ _
    by_cases hreserved : p ∈ reservedWords
    · exact ⟨p ++ "_", isIdentifier_lowLine hreserved, htrimmed "_"⟩
    · refine ⟨p, isIdentifier_iff.mpr ⟨hword, hreserved⟩, ?_⟩
      simpa using htrimmed ""

/-- **Whether the warning about the prefix is true.**  Where it is there, the prefix is removed from
no name that is passed, unless the prefix is a word with a foreign character.  A prefix is removed
from some name that is passed if and only if it is a word. -/
theorem uselessTrimPrefix_iff (s : Settings) :
    (("Trim prefix " ++ quoted s.trimPrefix ++ " can never match a Go name" ∈
          s.warnings.map Warning.message →
        ∀ name, isIdentifier name = true → Enum.display name s.trimPrefix none false = name) ↔
      ¬ (isWord s.trimPrefix = true ∧ Foreign s.trimPrefix)) ∧
    ((∃ name, isIdentifier name = true ∧ Enum.display name s.trimPrefix none false ≠ name) ↔
      isWord s.trimPrefix = true) := by
  have hall : (∀ name, isIdentifier name = true →
      Enum.display name s.trimPrefix none false = name) ↔ ¬ isWord s.trimPrefix = true := by
    rw [← exists_trimmed_iff]
    push Not
    rfl
  have hne : isWord s.trimPrefix = true → s.trimPrefix ≠ "" := by
    intro hword hp
    rw [hp] at hword
    cases hword
  refine ⟨?_, exists_trimmed_iff⟩
  refine (imp_congr uselessTrimPrefix_mem_messages hall).trans ?_
  rw [← Bool.not_eq_true, isPlainWord_iff]
  tauto

/-- A prefix with a foreign character is reported, and is removed from a name that is passed. -/
theorem foreign_prefix_trimmed :
    ({ typeNames := ["T"], trimPrefix := "Ü" } : Settings).warnings.map Warning.message =
      ["Trim prefix 'Ü' can never match a Go name"] ∧
    isIdentifier "Überall" = true ∧ Enum.display "Überall" "Ü" none false = "berall" := by
  decide +kernel

end Settings
end EnumHelpers
