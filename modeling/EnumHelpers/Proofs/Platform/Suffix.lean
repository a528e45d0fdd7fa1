import EnumHelpers.Proofs.Platform.FileName

/-!
# Proofs — the platform in a file name

Behind the low lines of a file name stand its *parts*, and the last ones may name a system, an
architecture, or one of each: the *platform* of the file (`platformOf`).  The file is selected where
the target serves that platform.

The rule of the build tool is stated apart from parts, by what a text ends in (`Foreign`, `Takes`):
of a name it drops what stands from the first point on, then what stands before the first low line,
then one `_test` at the end.  The names here lose `.go` and `_test` at the end and nothing else, so
the two agree on names with one point; with more points each looks at another text.

* `endsIn_iff`: what a text ends in shows in its parts.
* `foreign_iff`: a text is foreign to the targets that do not serve its platform.
* `eq_of_serves`: a platform is known by the targets that serve it.
* `matchesFileName_agrees_iff`: the names on which the two agree.
-/

namespace EnumHelpers

/-- A platform that a file may be meant for: a system and an architecture, either of them open. -/
structure Platform where
  os : Option String := none
  arch : Option String := none
  deriving DecidableEq, Repr

/-- A platform has no system and no architecture without a name. -/
structure Platform.Named (p : Platform) : Prop where
  os : p.os ≠ some ""
  arch : p.arch ≠ some ""

namespace Target
open Text

/-- The parts of a text: what stands behind its low lines. -/
def partsOf (text : String) : List String :=
  ((splitAtChar '_' text.toList).drop 1).map String.ofList

/-- The platform that parts, read backwards, begin with. -/
def platformAt : List String → Platform
  | [] => {}
  | last :: before =>
    if last ∈ knownSystems then { os := some last }
    else if last ∈ knownArchitectures then
      { os := before.head?.filter (· ∈ knownSystems), arch := some last }
    else {}

/-- The platform that the last parts of a text name. -/
def platformOf (text : String) : Platform := platformAt (partsOf text).reverse

/-- A target counts as the system of a platform and has its architecture, where they are given. -/
def Serves (t : Target) (p : Platform) : Prop :=
  (∀ g, p.os = some g → t.countsAs g = true) ∧ ∀ a, p.arch = some a → a = t.arch

/-! ### The rule -/

/-- A file name begins with a low line or a point. -/
def Hidden (name : String) : Prop := name.toList.head? = some '_' ∨ name.toList.head? = some '.'

/-- A text ends in parts, each with a low line in front. -/
def EndsIn (parts : List String) (text : String) : Prop :=
  (parts.flatMap fun part => '_' :: part.toList) <:+ text.toList

/-- A target is of a system, or of one that also counts as it. -/
def IsOf (t : Target) (g : String) : Prop := g = t.os ∨ impliedSystem? t.os = some g

/-- A text ends in a known system, a known architecture or one of each behind the other, and the
target does not satisfy it. -/
inductive Foreign (t : Target) (text : String) : Prop
  | system {g : String} (hg : g ∈ knownSystems) (hend : EndsIn [g] text) (hnot : ¬ t.IsOf g)
  | architecture {a : String} (ha : a ∈ knownArchitectures) (hend : EndsIn [a] text)
      (hnot : a ≠ t.arch)
  | both {g a : String} (hg : g ∈ knownSystems) (ha : a ∈ knownArchitectures)
      (hend : EndsIn [g, a] text) (hnot : ¬ (t.IsOf g ∧ a = t.arch))

/-- The text that decides by the rule: the name up to its first point, from its first low line on,
without one `_test` at the end. -/
def decidingText (name : String) : String :=
  withoutEnd "_test" (String.ofList ((name.toList.takeWhile (· ≠ '.')).dropWhile (· ≠ '_')))

/-- A file of a name is taken by the rule: the name is not hidden and its deciding text is not
foreign. -/
def Takes (t : Target) (name : String) : Prop := ¬ Hidden name ∧ ¬ t.Foreign (decidingText name)

variable {t : Target} {text : String} {parts : List String}

/-! ### Parts -/

/-- Parts are put together from words without low lines. -/
def Plain (parts : List String) : Prop := ∀ part ∈ parts, '_' ∉ part.toList

theorem splitAtChar_flatMap_parts (first : List Char) (hfirst : '_' ∉ first) (h : Plain parts) :
    splitAtChar '_' (first ++ parts.flatMap fun part => '_' :: part.toList) =
      first :: parts.map String.toList := by
  induction parts generalizing first with
  | nil => simpa using splitAtChar_of_notMem hfirst
  | cons part parts ih =>
      obtain ⟨hpart, hparts⟩ := List.forall_mem_cons.mp h
      rw [List.flatMap_cons, List.cons_append, splitAtChar_append, splitAtChar_of_notMem hfirst,
        ih part.toList hpart hparts]
      rfl

/-- Plain parts behind a text come behind the parts of the text. -/
theorem partsOf_append (h : Plain parts) {whole : String}
    (hwhole : whole.toList = text.toList ++ parts.flatMap fun part => '_' :: part.toList) :
    partsOf whole = partsOf text ++ parts := by
  cases parts with
  | nil => rw [partsOf, hwhole, partsOf, List.flatMap_nil, List.append_nil, List.append_nil]
  | cons part parts =>
      obtain ⟨hpart, hparts⟩ := List.forall_mem_cons.mp h
      obtain ⟨first, pieces, htext⟩ := List.exists_cons_of_ne_nil (splitAtChar_ne_nil text.toList)
      rw [partsOf, hwhole, List.flatMap_cons, List.cons_append, splitAtChar_append,
        splitAtChar_flatMap_parts part.toList hpart hparts, partsOf, htext]
      simp [Function.comp_def]

/-- What a text ends in shows in its parts. -/
theorem endsIn_iff (h : Plain parts) : EndsIn parts text ↔ parts <:+ partsOf text := by
  constructor
  · rintro ⟨front, hfront⟩
    refine ⟨partsOf (String.ofList front), (partsOf_append h ?_).symm⟩
    rw [String.toList_ofList, hfront]
  · rintro ⟨before, hbefore⟩
    obtain ⟨first, pieces, hsplit, htext⟩ := exists_splitAtChar_eq_cons '_' text.toList
    have hpieces : pieces.map String.ofList = before ++ parts := by
      rw [hbefore, partsOf, hsplit, List.drop_one, List.tail_cons]
    have hspelled : pieces.flatMap ('_' :: ·) =
        (before ++ parts).flatMap fun part => '_' :: part.toList := by
      rw [← hpieces, List.flatMap_map]
      simp
    rw [EndsIn, htext, hspelled, List.flatMap_append, ← List.append_assoc]
    exact List.suffix_append _ _

theorem lowLine_notMem_system : ∀ g ∈ knownSystems, '_' ∉ g.toList := by decide

theorem lowLine_notMem_architecture : ∀ a ∈ knownArchitectures, '_' ∉ a.toList := by decide

/-- No system is called like an architecture. -/
theorem notMem_knownArchitectures : ∀ g ∈ knownSystems, g ∉ knownArchitectures := by decide

/-! ### Platforms -/

theorem countsAs_iff {g : String} : t.countsAs g = true ↔ t.IsOf g := by
  rw [countsAs, Bool.or_eq_true, beq_iff_eq, beq_iff_eq, IsOf]

theorem serves_none : t.Serves {} := ⟨nofun, nofun⟩

theorem serves_system {g : String} : t.Serves { os := some g } ↔ t.IsOf g := by
  rw [Serves, ← countsAs_iff]
  exact ⟨fun h => h.1 g rfl, fun h => ⟨fun _ hg => Option.some.inj hg ▸ h, nofun⟩⟩

theorem serves_architecture {os : Option String} {a : String} :
    t.Serves { os, arch := some a } ↔ (∀ g, os = some g → t.IsOf g) ∧ a = t.arch := by
  simp only [Serves, ← countsAs_iff]
  exact and_congr_right fun _ => ⟨fun h => h a rfl, fun h _ ha => Option.some.inj ha ▸ h⟩

section
variable {g a last : String} {before : List String}

theorem platformAt_system (hg : g ∈ knownSystems) : platformAt (g :: before) = { os := some g } :=
  if_pos hg

theorem platformAt_architecture (ha : a ∈ knownArchitectures) : platformAt (a :: before) =
    { os := before.head?.filter (· ∈ knownSystems), arch := some a } := by
  have hos : a ∉ knownSystems := fun hg => notMem_knownArchitectures a hg ha
  rw [platformAt, if_neg hos, if_pos ha]

theorem platformAt_other (hos : last ∉ knownSystems) (harch : last ∉ knownArchitectures) :
    platformAt (last :: before) = {} := by
  rw [platformAt, if_neg hos, if_neg harch]

end

/-- Parts select the targets that serve the platform they name. -/
theorem selectedBy_iff : t.selectedBy parts = true ↔ t.Serves (platformAt parts) := by
  have hlast : ∀ last, (if knownSystems.contains last then t.countsAs last
      else if knownArchitectures.contains last then last == t.arch else true) = true ↔
      t.Serves (platformAt [last]) := by
    intro last
    by_cases hos : last ∈ knownSystems
    · simp [platformAt_system hos, hos, serves_system, countsAs_iff]
    · by_cases harch : last ∈ knownArchitectures
      · simp [platformAt_architecture harch, hos, harch, serves_architecture]
      · simp [platformAt_other hos harch, hos, harch, serves_none]
  match parts with
  | [] => exact iff_of_true rfl serves_none
  | [last] => exact hlast last
  | last :: second :: before =>
      rw [selectedBy]
      by_cases hboth : second ∈ knownSystems ∧ last ∈ knownArchitectures
      · simp [platformAt_architecture hboth.2, hboth, serves_architecture, countsAs_iff,
          Option.filter]
      · have hcontains :
            (knownSystems.contains second && knownArchitectures.contains last) = false := by
          simpa using hboth
        -- the part before the last one makes no difference to the platform
        have hplatform : platformAt (last :: second :: before) = platformAt [last] := by
          by_cases harch : last ∈ knownArchitectures
          · have hsecond : second ∉ knownSystems := fun h => hboth ⟨h, harch⟩
            simp [platformAt_architecture harch, hsecond]
          · rw [platformAt, platformAt, if_neg harch, if_neg harch]
        rw [hcontains, if_neg Bool.false_ne_true, hplatform]
        exact hlast last

/-- What a text ends in shows in its parts, read backwards. -/
theorem endsIn_iff_reverse (h : Plain parts) :
    EndsIn parts text ↔ ∃ before, (partsOf text).reverse = parts.reverse ++ before := by
  rw [endsIn_iff h, ← List.reverse_prefix]
  exact exists_congr fun before => eq_comm

/-- A text is foreign to the targets that do not serve its platform. -/
theorem foreign_iff : t.Foreign text ↔ ¬ t.Serves (platformOf text) := by
  have hone : ∀ {part : String}, '_' ∉ part.toList →
      (EndsIn [part] text ↔ ∃ before, (partsOf text).reverse = part :: before) :=
    fun h => endsIn_iff_reverse (List.forall_mem_singleton.mpr h)
  have htwo : ∀ {g a : String}, g ∈ knownSystems → a ∈ knownArchitectures →
      (EndsIn [g, a] text ↔ ∃ before, (partsOf text).reverse = a :: g :: before) :=
    fun hg ha => endsIn_iff_reverse (List.forall_mem_cons.mpr ⟨lowLine_notMem_system _ hg,
      List.forall_mem_singleton.mpr (lowLine_notMem_architecture _ ha)⟩)
  rw [platformOf]
  constructor
  · rintro (⟨hg, hend, hnot⟩ | ⟨ha, hend, hnot⟩ | ⟨hg, ha, hend, hnot⟩) hserves
    · obtain ⟨before, hparts⟩ := (hone (lowLine_notMem_system _ hg)).mp hend
      rw [hparts, platformAt_system hg] at hserves
      exact hnot (serves_system.mp hserves)
    · obtain ⟨before, hparts⟩ := (hone (lowLine_notMem_architecture _ ha)).mp hend
      rw [hparts, platformAt_architecture ha] at hserves
      exact hnot (serves_architecture.mp hserves).2
    · obtain ⟨before, hparts⟩ := (htwo hg ha).mp hend
      rw [hparts, platformAt_architecture ha, serves_architecture] at hserves
      exact hnot ⟨hserves.1 _ (by simp [hg]), hserves.2⟩
  · intro hserves
    cases hparts : (partsOf text).reverse with
    | nil =>
        rw [hparts] at hserves
        exact absurd serves_none hserves
    | cons last before =>
        rw [hparts] at hserves
        by_cases hos : last ∈ knownSystems
        · rw [platformAt_system hos, serves_system] at hserves
          exact .system hos ((hone (lowLine_notMem_system _ hos)).mpr ⟨before, hparts⟩) hserves
        · by_cases harch : last ∈ knownArchitectures
          · rw [platformAt_architecture harch, serves_architecture] at hserves
            by_cases hlast : last = t.arch
            · simp only [hlast, and_true, not_forall] at hserves
              obtain ⟨g, hg, hnot⟩ := hserves
              obtain ⟨hhead, hknown⟩ := Option.filter_eq_some_iff.mp hg
              obtain ⟨more, rfl⟩ := List.head?_eq_some_iff.mp hhead
              have hknown : g ∈ knownSystems := by simpa using hknown
              exact .both hknown harch ((htwo hknown harch).mpr ⟨more, hparts⟩) fun h => hnot h.1
            · exact .architecture harch
                ((hone (lowLine_notMem_architecture _ harch)).mpr ⟨before, hparts⟩) hlast
          · rw [platformAt_other hos harch] at hserves
            exact absurd serves_none hserves

/-! ### Platforms and the targets that serve them -/

/-- The systems that also count as another one, each with that one. -/
theorem mem_of_impliedSystem? {g h : String} (hg : impliedSystem? g = some h) :
    (g, h) ∈ [("android", "linux"), ("ios", "darwin"), ("illumos", "solaris")] := by
  rw [impliedSystem?] at hg
  split at hg
  · simp_all
  · split at hg
    · simp_all
    · split at hg
      · simp_all
      · cases hg

/-- What a system also counts as is known, and counts as no other. -/
theorem of_impliedSystem? {g h : String} (hg : impliedSystem? g = some h) :
    h ∈ knownSystems ∧ impliedSystem? h = none := by
  have hall : ∀ entry ∈ [("android", "linux"), ("ios", "darwin"), ("illumos", "solaris")],
      entry.2 ∈ knownSystems ∧ impliedSystem? entry.2 = none := by decide
  exact hall _ (mem_of_impliedSystem? hg)

theorem named_platformOf (text : String) : (platformOf text).Named := by
  have hempty : "" ∉ knownSystems ∧ "" ∉ knownArchitectures := by decide
  rw [platformOf]
  cases (partsOf text).reverse with
  | nil => exact ⟨nofun, nofun⟩
  | cons last before =>
      by_cases hos : last ∈ knownSystems
      · rw [platformAt_system hos]
        exact ⟨fun h => hempty.1 (Option.some.inj h ▸ hos), nofun⟩
      · by_cases harch : last ∈ knownArchitectures
        · rw [platformAt_architecture harch]
          refine ⟨fun h => ?_, fun h => hempty.2 (Option.some.inj h ▸ harch)⟩
          exact hempty.1 (by simpa using (Option.filter_eq_some_iff.mp h).2)
        · rw [platformAt_other hos harch]
          exact ⟨nofun, nofun⟩

/-- The target of a platform's own system and architecture. -/
def ofPlatform (p : Platform) : Target := ⟨p.os.getD "", p.arch.getD ""⟩

theorem serves_ofPlatform (p : Platform) : (ofPlatform p).Serves p := by
  obtain ⟨os, arch⟩ := p
  refine ⟨?_, ?_⟩
  · rintro g rfl
    exact countsAs_iff.mpr (.inl rfl)
  · rintro a rfl
    rfl

/-- Where the target of a platform serves another, that one names no other architecture, and no
system but that of the platform or one it counts as. -/
theorem of_serves_ofPlatform {p q : Platform} (hq : q.Named) (h : (ofPlatform p).Serves q) :
    (∀ a, q.arch = some a → p.arch = some a) ∧
    ∀ g', q.os = some g' → ∃ g, p.os = some g ∧ (g' = g ∨ impliedSystem? g = some g') := by
  constructor
  · intro a ha
    have heq : a = p.arch.getD "" := h.2 a ha
    cases harch : p.arch with
    | none =>
        rw [harch, Option.getD_none] at heq
        exact absurd (heq ▸ ha) hq.arch
    | some b =>
        rw [harch] at heq
        rw [heq]
        rfl
  · intro g' hg'
    have heq : (ofPlatform p).IsOf g' := countsAs_iff.mp (h.1 g' hg')
    cases hos : p.os with
    | none =>
        rw [IsOf, ofPlatform, hos] at heq
        rcases heq with rfl | heq
        · exact absurd hg' hq.os
        · cases heq
    | some g =>
        rw [IsOf, ofPlatform, hos] at heq
        exact ⟨g, rfl, heq⟩

/-- **A platform is known by the targets that serve it.** -/
theorem eq_of_serves {p q : Platform} (hp : p.Named) (hq : q.Named)
    (h : ∀ t : Target, t.Serves p ↔ t.Serves q) : p = q := by
  obtain ⟨harchq, hosq⟩ := of_serves_ofPlatform hq ((h _).mp (serves_ofPlatform p))
  obtain ⟨harchp, hosp⟩ := of_serves_ofPlatform hp ((h _).mpr (serves_ofPlatform q))
  have hos : ∀ {x y : Option String},
      (∀ g', y = some g' → ∃ g, x = some g ∧ (g' = g ∨ impliedSystem? g = some g')) →
      (∀ g', x = some g' → ∃ g, y = some g ∧ (g' = g ∨ impliedSystem? g = some g')) →
      ∀ g, x = some g → y = some g := by
    intro x y hxy hyx g hg
    obtain ⟨g', hg', rfl | hcounts⟩ := hyx g hg
    · exact hg'
    · -- the two would count as each other
      obtain ⟨g'', hg'', rfl | hcounts'⟩ := hxy g' hg'
      · rw [hg', ← hg'', hg]
      · rw [hg, Option.some_inj] at hg''
        rw [← hg'', (of_impliedSystem? hcounts).2] at hcounts'
        cases hcounts'
  obtain ⟨os, arch⟩ := p
  obtain ⟨os', arch'⟩ := q
  have hos : os = os' := Option.ext fun g => ⟨hos hosq hosp g, hos hosp hosq g⟩
  have harch : arch = arch' := Option.ext fun a => ⟨harchp a, harchq a⟩
  rw [hos, harch]

/-! ### File names -/

theorem matchesFileName_iff {name : String} : t.matchesFileName name = true ↔
    ¬ Hidden name ∧ ¬ t.Foreign (withoutEnd "_test" (withoutEnd ".go" name)) := by
  rw [foreign_iff, not_not, platformOf, ← selectedBy_iff, matchesFileName, Bool.and_eq_true,
    Bool.and_eq_true, Bool.not_eq_true', Bool.not_eq_true', ← Bool.not_eq_true, ← Bool.not_eq_true,
    startsWith_singleton (show "_".toList = ['_'] from rfl),
    startsWith_singleton (show ".".toList = ['.'] from rfl), ← not_or]
  rfl

theorem takes_iff {name : String} :
    t.Takes name ↔ ¬ Hidden name ∧ t.Serves (platformOf (decidingText name)) := by
  rw [Takes, foreign_iff, not_not]

/-- What stands before the first low line makes no difference to the parts. -/
theorem partsOf_dropWhile (text : String) :
    partsOf (String.ofList (text.toList.dropWhile (· ≠ '_'))) = partsOf text := by
  have hfront : '_' ∉ text.toList.takeWhile (· ≠ '_') := by
    intro hmem
    simpa using List.mem_takeWhile_imp hmem
  obtain ⟨first, pieces, hdrop, hall⟩ := splitAtChar_front hfront (text.toList.dropWhile (· ≠ '_'))
  rw [List.takeWhile_append_dropWhile] at hall
  rw [partsOf, partsOf, String.toList_ofList, hdrop, hall]
  rfl

/-- Without one `_test` at the end the last part is missing, if it is that. -/
theorem partsOf_withoutEnd_test (text : String) : partsOf (withoutEnd "_test" text) =
    if ["test"] <:+ partsOf text then (partsOf text).dropLast else partsOf text := by
  have hplain : Plain ["test"] := by simp [Plain]
  have hend : endsWith "_test" text = true ↔ ["test"] <:+ partsOf text := by
    rw [← endsIn_iff hplain, Package.endsWith_iff]
    rfl
  by_cases htest : ["test"] <:+ partsOf text
  · obtain ⟨front, hfront⟩ := Package.endsWith_iff.mp (hend.mpr htest)
    have htext : text = String.ofList front ++ "_test" := by
      rw [← String.toList_inj, String.toList_append, String.toList_ofList, hfront]
    have hparts : partsOf text = partsOf (String.ofList front) ++ ["test"] :=
      partsOf_append hplain (by rw [htext, String.toList_append]; rfl)
    rw [if_pos htest, hparts, List.dropLast_concat, htext, withoutEnd_append]
  · rw [if_neg htest, withoutEnd, if_neg (mt hend.mp htest)]

/-- The platform of a text without one `_test` at the end is read off its parts. -/
theorem platformOf_withoutEnd_test_congr {text text' : String} (h : partsOf text = partsOf text') :
    platformOf (withoutEnd "_test" text) = platformOf (withoutEnd "_test" text') := by
  rw [platformOf, platformOf, partsOf_withoutEnd_test, partsOf_withoutEnd_test, h]

/-- With no point but that of its ending, a name has the platform of its deciding text. -/
theorem platformOf_decidingText {base : String} (h : '.' ∉ base.toList) :
    platformOf (decidingText (base ++ ".go")) = platformOf (withoutEnd "_test" base) := by
  have huntil : (base ++ ".go").toList.takeWhile (· ≠ '.') = base.toList := by
    rw [String.toList_append, List.takeWhile_append_of_pos]
    · simp
    · intro c hc
      have hne : c ≠ '.' := fun hpoint => h (hpoint ▸ hc)
      simpa using hne
  rw [decidingText, huntil]
  exact platformOf_withoutEnd_test_congr (partsOf_dropWhile base)

/-- **On which names the two agree.**  A file name that ends in `.go` is matched where it is not
hidden and, without `.go` and one `_test` at its end, not foreign to the target.  It is matched as
the rule takes it, at every target, if and only if it is hidden or the text that decides by the rule
names the same platform; and so it is where the name holds no other point. -/
theorem matchesFileName_agrees_iff (base : String) :
    (∀ t : Target, t.matchesFileName (base ++ ".go") = true ↔
      ¬ Hidden (base ++ ".go") ∧ ¬ t.Foreign (withoutEnd "_test" base)) ∧
    ((∀ t : Target, t.matchesFileName (base ++ ".go") = true ↔ t.Takes (base ++ ".go")) ↔
      Hidden (base ++ ".go") ∨
        platformOf (withoutEnd "_test" base) = platformOf (decidingText (base ++ ".go"))) ∧
    ('.' ∉ base.toList →
      ∀ t : Target, t.matchesFileName (base ++ ".go") = true ↔ t.Takes (base ++ ".go")) := by
  have hmatches : ∀ t : Target, t.matchesFileName (base ++ ".go") = true ↔
      ¬ Hidden (base ++ ".go") ∧ ¬ t.Foreign (withoutEnd "_test" base) := by
    intro t
    rw [matchesFileName_iff, withoutEnd_append]
  have hagree : (∀ t : Target, t.matchesFileName (base ++ ".go") = true ↔ t.Takes (base ++ ".go")) ↔
      Hidden (base ++ ".go") ∨
        platformOf (withoutEnd "_test" base) = platformOf (decidingText (base ++ ".go")) := by
    simp only [hmatches, takes_iff, foreign_iff, not_not]
    constructor
    · intro h
      refine or_iff_not_imp_left.mpr fun hhidden => ?_
      exact eq_of_serves (named_platformOf _) (named_platformOf _) fun t => by
        simpa [hhidden] using h t
    · rintro (hhidden | hplatform) t
      · simp [hhidden]
      · rw [hplatform]
  exact ⟨hmatches, hagree, fun hpoint => hagree.mpr (.inr (platformOf_decidingText hpoint).symm)⟩

/-- A suffix behind which another one stands is not seen. -/
theorem covered_suffix_not_seen :
    (⟨"linux", "amd64"⟩ : Target).matchesFileName "conn_windows.pb.go" = true ∧
      ¬ (⟨"linux", "amd64"⟩ : Target).Takes "conn_windows.pb.go" := by
  refine ⟨by decide, fun h => h.2 ?_⟩
  exact .system (g := "windows") (by decide) ⟨[], by decide⟩ (by simp [IsOf, impliedSystem?])

end Target
end EnumHelpers
