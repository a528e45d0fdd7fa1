import EnumHelpers.Proofs.Platform.Constraint
import EnumHelpers.Proofs.Platform.Header
import EnumHelpers.Proofs.Platform.Suffix

/-!
# Proofs — suffixes and tags

The platform of a file can be told at two places: by a suffix of its name, or by tags in a
constraint at the head of its text.  The tags of systems and architectures are satisfied where the
target serves them (`mem_tags_of_system`, `mem_tags_of_architecture`), as long as the target does
not call its system like an architecture or the other way round.

* `lineOf_of_headed`: the first line of a text is its constraint.
* `matchesFileName_append`: a last part selects the targets that serve the platform it gives.
* `matchesSource_of_suffix`: a suffix selects the targets that its tags select.
-/

namespace EnumHelpers

/-! ### Constraints of one or two tags -/

namespace Constraint
open Text

/-- The first line of a source text is a constraint line with the given text. -/
def Headed (source expression : String) : Prop :=
  (lines source).head? = some (lineMark ++ " " ++ expression)

instance (source expression : String) : Decidable (Headed source expression) :=
  inferInstanceAs (Decidable (_ = _))

/-- A text can stand as a tag in a constraint. -/
def IsTag (name : String) : Prop := (Token.tag name).Writable

variable {tags : List String} {source expression name name' : String}

/-- A constraint on the first line is found, if no blanks stand around its text. -/
theorem lineOf_of_headed (h : Headed source expression)
    (hfirst : ∃ c, expression.toList.head? = some c ∧ isBlank c = false)
    (hlast : ∃ c, expression.toList.getLast? = some c ∧ isBlank c = false) :
    lineOf source = some expression := by
  obtain ⟨below, hlines⟩ := List.head?_eq_some_iff.mp h
  obtain ⟨first, hfirst, hfirst'⟩ := hfirst
  obtain ⟨last, hlast, hlast'⟩ := hlast
  have hrest : trimChars (' ' :: expression.toList) = expression.toList := by
    have hkept : trimChars expression.toList = expression.toList := by
      refine trimChars_of_ends ?_ ?_
      · simp [hfirst, hfirst']
      · simp [hlast, hlast']
    exact hkept
  have hline : trimChars (lineMark ++ " " ++ expression).toList =
      lineMark.toList ++ ' ' :: expression.toList := by
    rw [String.toList_append, String.toList_append, List.append_assoc]
    refine trimChars_of_ends ?_ ?_
    · simp [lineMark, isBlank]
    · rw [List.getLast?_append, List.getLast?_append, hlast]
      simp [hlast']
  rw [lineOf, hlines, List.map_cons, hline, lineIn_mark, hrest, String.ofList_toList]

theorem IsTag.ends (h : IsTag name) :
    (∃ c, name.toList.head? = some c ∧ isBlank c = false) ∧
      ∃ c, name.toList.getLast? = some c ∧ isBlank c = false := by
  obtain ⟨hne, hsolid⟩ := Token.Writable.solid h
  exact ⟨⟨_, List.head?_eq_some_head hne, hsolid _ (List.head_mem hne)⟩,
    ⟨_, List.getLast?_eq_some_getLast hne, hsolid _ (List.getLast_mem hne)⟩⟩

/-- A tag spells itself. -/
theorem spelled_tag (h : IsTag name) : Spelled tags name (decide (name ∈ tags)) := by
  refine ⟨[.tag name], ?_, .ofConjunction (.ofOperand (.tag name))⟩
  have hspells : Spells ([] ++ (name.toList ++ [])) [.tag name] :=
    @Spells.cons _ _ (.tag name) _ nofun h (.nil nofun)
  simpa using hspells

/-- Two tags with `&&` between them spell that both are satisfied. -/
theorem spelled_and (h : IsTag name) (h' : IsTag name') :
    Spelled tags (name ++ " && " ++ name') (decide (name ∈ tags) && decide (name' ∈ tags)) := by
  refine ⟨[.tag name, .and, .tag name'], ?_,
    .ofConjunction (.and (.ofOperand (.tag name)) (.tag name'))⟩
  have hblank : ∀ c ∈ [' '], isBlank c = true := List.forall_mem_singleton.mpr (by decide)
  have hspells : Spells ([] ++ (name.toList ++ ([' '] ++ (['&', '&'] ++ ([' '] ++
      (name'.toList ++ [])))))) [.tag name, .and, .tag name'] :=
    @Spells.cons _ _ (.tag name) _ nofun h (@Spells.cons _ _ .and _ hblank trivial
      (@Spells.cons _ _ (.tag name') _ hblank h' (.nil nofun)))
  simpa using hspells

end Constraint

namespace Target
open Constraint Text

variable {t : Target} {unit source stem g a part : String}

theorem matchesSource_of_tag (hsource : Headed source g) (h : IsTag g) :
    t.matchesSource unit source = .ok (decide (g ∈ t.tags)) :=
  matchesSource_eq_ok_iff.mpr (.inr ⟨g, lineOf_of_headed hsource h.ends.1 h.ends.2, spelled_tag h⟩)

theorem matchesSource_of_and (hsource : Headed source (g ++ " && " ++ a)) (hg : IsTag g)
    (ha : IsTag a) :
    t.matchesSource unit source = .ok (decide (g ∈ t.tags) && decide (a ∈ t.tags)) := by
  obtain ⟨c, hfirst, hc⟩ := hg.ends.1
  obtain ⟨d, hlast, hd⟩ := ha.ends.2
  have hline : lineOf source = some (g ++ " && " ++ a) := by
    refine lineOf_of_headed hsource ⟨c, ?_, hc⟩ ⟨d, ?_, hd⟩
    · rw [String.toList_append, String.toList_append, List.append_assoc, List.head?_append, hfirst,
        Option.some_or]
    · rw [String.toList_append, List.getLast?_append, hlast, Option.some_or]
  exact matchesSource_eq_ok_iff.mpr (.inr ⟨_, hline, spelled_and hg ha⟩)

/-! ### Tags of systems and architectures -/

theorem isTag_of_known : (∀ g ∈ knownSystems, IsTag g) ∧ ∀ a ∈ knownArchitectures, IsTag a := by
  have hall : ∀ name ∈ knownSystems ++ knownArchitectures,
      name.toList ≠ [] ∧ name.toList.all isTagChar = true := by decide +kernel
  have htag : ∀ name ∈ knownSystems ++ knownArchitectures, IsTag name := fun name hname =>
    ⟨(hall name hname).1, List.all_eq_true.mp (hall name hname).2⟩
  exact ⟨fun g hg => htag g (List.mem_append_left _ hg),
    fun a ha => htag a (List.mem_append_right _ ha)⟩

/-- A known name is a tag that is satisfied as the name of the target's system or architecture, or
of what the system also counts as. -/
theorem mem_tags_of_known (hg : g ∈ knownSystems ++ knownArchitectures) :
    g ∈ t.tags ↔ t.IsOf g ∨ g = t.arch := by
  have hall : ∀ name ∈ knownSystems ++ knownArchitectures,
      name ≠ "gc" ∧ name ≠ "unix" ∧ name ∉ releaseTags := by decide +kernel
  obtain ⟨hgc, hunix, hrelease⟩ := hall g hg
  have hif : g ∉ if unixSystems.contains t.os then ["unix"] else [] := by
    split <;> simp [hunix]
  simp only [tags, List.mem_append, hif, hrelease, or_false, List.mem_cons, List.not_mem_nil, hgc,
    Option.mem_toList, IsOf]
  tauto

theorem mem_tags_of_system (harch : t.arch ∉ knownSystems) (hg : g ∈ knownSystems) :
    g ∈ t.tags ↔ t.IsOf g := by
  rw [mem_tags_of_known (List.mem_append_left _ hg), or_iff_left]
  rintro rfl
  exact harch hg

theorem mem_tags_of_architecture (hos : t.os ∉ knownArchitectures) (ha : a ∈ knownArchitectures) :
    a ∈ t.tags ↔ a = t.arch := by
  rw [mem_tags_of_known (List.mem_append_right _ ha), or_iff_right]
  rintro (rfl | himplied)
  · exact hos ha
  · exact notMem_knownArchitectures a (of_impliedSystem? himplied).1 ha

/-! ### Suffixes -/

theorem partsOf_append_part (stem : String) (hpart : '_' ∉ part.toList) :
    partsOf (stem ++ "_" ++ part) = partsOf stem ++ [part] :=
  partsOf_append (List.forall_mem_singleton.mpr hpart) (by simp)

/-- A stem has one character or more, and the first one hides no file. -/
structure IsStem (stem : String) : Prop where
  ne_empty : stem ≠ ""
  visible : ¬ Hidden stem

theorem IsStem.append (h : IsStem stem) (tail : String) : IsStem (stem ++ tail) := by
  obtain ⟨c, rest, hstem⟩ := List.exists_cons_of_ne_nil (mt String.toList_eq_nil_iff.mp h.ne_empty)
  refine ⟨fun hnil => ?_, fun hhidden => h.visible ?_⟩
  · have htail := congrArg String.toList hnil
    simp [hstem] at htail
  · simpa [Hidden, hstem] using hhidden

/-- A last part selects the targets that serve the platform it gives. -/
theorem matchesFileName_append (hstem : IsStem stem) (hpart : '_' ∉ part.toList)
    (htest : part ≠ "test") :
    t.matchesFileName (stem ++ "_" ++ part ++ ".go") = true ↔
      t.Serves (platformAt (part :: (partsOf stem).reverse)) := by
  have hvisible : ¬ Hidden (stem ++ "_" ++ part ++ ".go") :=
    (((hstem.append "_").append part).append ".go").visible
  have hparts := partsOf_append_part stem hpart
  have hend : ¬ ["test"] <:+ partsOf stem ++ [part] := by
    rintro ⟨front, hfront⟩
    exact htest (List.singleton_inj.mp (List.append_inj_right' hfront rfl)).symm
  rw [matchesFileName_iff, foreign_iff, not_not, and_iff_right hvisible, withoutEnd_append,
    platformOf, partsOf_withoutEnd_test, hparts, if_neg hend, List.reverse_append,
    List.reverse_singleton, List.singleton_append]

theorem ne_test_of_known : "test" ∉ knownSystems ++ knownArchitectures := by decide

/-- A system as the last part selects as its tag does. -/
theorem matchesFileName_system (hstem : IsStem stem) (harch : t.arch ∉ knownSystems)
    (hg : g ∈ knownSystems) :
    t.matchesFileName (stem ++ "_" ++ g ++ ".go") = decide (g ∈ t.tags) := by
  have htest : g ≠ "test" := fun h => ne_test_of_known (h ▸ List.mem_append_left _ hg)
  rw [Bool.eq_iff_iff, matchesFileName_append hstem (lowLine_notMem_system g hg) htest,
    platformAt_system hg, serves_system, decide_eq_true_iff, mem_tags_of_system harch hg]

/-- An architecture as the last part selects as its tag does, together with that of a system in the
part before it. -/
theorem matchesFileName_architecture (hstem : IsStem stem) (hos : t.os ∉ knownArchitectures)
    (harch : t.arch ∉ knownSystems) (ha : a ∈ knownArchitectures) :
    t.matchesFileName (stem ++ "_" ++ a ++ ".go") =
      (((partsOf stem).getLast?.filter (· ∈ knownSystems)).all (fun g => decide (g ∈ t.tags)) &&
        decide (a ∈ t.tags)) := by
  have htest : a ≠ "test" := fun h => ne_test_of_known (h ▸ List.mem_append_right _ ha)
  rw [Bool.eq_iff_iff, matchesFileName_append hstem (lowLine_notMem_architecture a ha) htest,
    platformAt_architecture ha, serves_architecture, Bool.and_eq_true, decide_eq_true_iff,
    mem_tags_of_architecture hos ha, List.head?_reverse, Option.all_eq_true]
  refine and_congr_left fun _ => forall₂_congr fun g hg => ?_
  have hg : g ∈ knownSystems := by simpa using (Option.filter_eq_some_iff.mp hg).2
  rw [decide_eq_true_iff, mem_tags_of_system harch hg]

/-- **Suffixes and tags select alike.**  For a target whose system is not called like an
architecture, nor its architecture like a system, a file is matched by its name with a known suffix
as a source text is by the tags of the suffix on its first line.  An architecture behind a part that
is a known system, and not the first of the name, has the tag of that system as well. -/
theorem matchesSource_of_suffix (hos : t.os ∉ knownArchitectures) (harch : t.arch ∉ knownSystems)
    (hne : stem ≠ "") (hline : stem.toList.head? ≠ some '_') (hpoint : stem.toList.head? ≠ some '.')
    (hg : g ∈ knownSystems) (ha : a ∈ knownArchitectures) (unit : String) :
    (∀ source, Headed source g → t.matchesSource unit source =
      .ok (t.matchesFileName (stem ++ "_" ++ g ++ ".go"))) ∧
    (∀ source, Headed source (g ++ " && " ++ a) → t.matchesSource unit source =
      .ok (t.matchesFileName (stem ++ "_" ++ g ++ "_" ++ a ++ ".go"))) ∧
    (∀ source, (∀ o ∈ knownSystems, (partsOf stem).getLast? ≠ some o) → Headed source a →
      t.matchesSource unit source = .ok (t.matchesFileName (stem ++ "_" ++ a ++ ".go"))) ∧
    (∀ source, ∀ o ∈ knownSystems, (partsOf stem).getLast? = some o →
      Headed source (o ++ " && " ++ a) →
      t.matchesSource unit source = .ok (t.matchesFileName (stem ++ "_" ++ a ++ ".go"))) := by
  have hstem : IsStem stem := ⟨hne, fun h => h.elim hline hpoint⟩
  have htag := isTag_of_known.1
  have htag' := isTag_of_known.2 a ha
  -- an architecture behind a part that is a system
  have hboth : ∀ {stem source o : String}, IsStem stem → o ∈ knownSystems →
      (partsOf stem).getLast? = some o → Headed source (o ++ " && " ++ a) →
      t.matchesSource unit source = .ok (t.matchesFileName (stem ++ "_" ++ a ++ ".go")) := by
    intro stem source o hstem ho hlast hsource
    rw [matchesSource_of_and hsource (htag o ho) htag',
      matchesFileName_architecture hstem hos harch ha, hlast]
    simp [ho]
  refine ⟨fun source hsource => ?_, fun source hsource => ?_, fun source hlast hsource => ?_,
    fun source o => hboth hstem⟩
  · rw [matchesSource_of_tag hsource (htag g hg), matchesFileName_system hstem harch hg]
  · refine hboth ((hstem.append "_").append g) hg ?_ hsource
    rw [partsOf_append_part stem (lowLine_notMem_system g hg), List.getLast?_concat]
  · have hnone : (partsOf stem).getLast?.filter (· ∈ knownSystems) = none := by
      rw [Option.filter_eq_none_iff]
      intro o ho
      simpa using fun hknown => hlast o hknown ho
    rw [matchesSource_of_tag hsource htag', matchesFileName_architecture hstem hos harch ha, hnone]
    rfl

/-- A target whose system counts as another one. -/
def phone : Target := ⟨"android", "arm64"⟩

/-- The suffixes of two names, of which one has a system behind its first part. -/
theorem matchesSource_of_suffix_phone :
    (phone.os ∉ knownArchitectures ∧ phone.arch ∉ knownSystems) ∧
    phone.matchesSource "a.go" "//go:build linux\n\npackage p\n" =
      .ok (phone.matchesFileName "linux_ios_linux.go") ∧
    phone.matchesSource "a.go" "//go:build linux && arm64\n\npackage p\n" =
      .ok (phone.matchesFileName "linux_ios_linux_arm64.go") ∧
    phone.matchesSource "a.go" "//go:build ios && arm64\n\npackage p\n" =
      .ok (phone.matchesFileName "linux_ios_arm64.go") ∧
    phone.matchesSource "a.go" "//go:build arm64\n\npackage p\n" =
      .ok (phone.matchesFileName "linux_arm64.go") := by
  have hos : phone.os ∉ knownArchitectures := by decide
  have harch : phone.arch ∉ knownSystems := by decide
  have hg : "linux" ∈ knownSystems := by decide
  have ha : "arm64" ∈ knownArchitectures := by decide
  obtain ⟨hsystem, hboth, -, hbehind⟩ := matchesSource_of_suffix hos harch
    (show "linux_ios" ≠ "" by decide) (by decide) (by decide) hg ha "a.go"
  obtain ⟨-, -, halone, -⟩ := matchesSource_of_suffix hos harch
    (show "linux" ≠ "" by decide) (by decide) (by decide) hg ha "a.go"
  exact ⟨⟨hos, harch⟩, hsystem _ (by decide), hboth _ (by decide),
    hbehind _ "ios" (by decide) (by decide) (by decide), halone _ (by decide) (by decide)⟩

end Target
end EnumHelpers
