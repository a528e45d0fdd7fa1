import EnumHelpers.Emission.Job
import EnumHelpers.Proofs.Enum.Shadowing

/-!
# Proofs — warnings of shadowed elements

An element is shadowed when the form in which its value is shown is *claimed*: some later element
has it with another value.  That form is the one of the last element with the value, while the
warning names the form of the shadowed element itself.  The two differ only when a value has several
names, and then the form that is named may be claimed by nobody.

* `mem_shadowed_iff_claimed`: when an element is shadowed, told of the elements alone.
* `claimed_iff_of_shadowed`: when the form that the warning names is claimed.
* `warnings_of_shadowed`: both, for the warnings about a job.
-/

namespace EnumHelpers.EnumSet

/-- The string form of an element is claimed by one of the elements after it, which has the form
and another value. -/
def Claimed (e : Element) (after : List Element) : Prop :=
  ∃ x ∈ after, x.display = e.display ∧ x.value ≠ e.value

instance (e : Element) (after : List Element) : Decidable (Claimed e after) :=
  inferInstanceAs (Decidable (∃ x ∈ after, _))

/-- The form in which the value of an element is shown, that of the last element with the value, is
claimed. -/
def ShownClaimed (elements : List Element) (e : Element) : Prop :=
  ∃ before w after, elements = before ++ w :: after ∧ w.value = e.value ∧
    (∀ x ∈ after, x.value ≠ e.value) ∧ Claimed w after

variable {typeName : String} {elements before after : List Element} {p : Element → Prop}
  [DecidablePred p] {e w x : Element}

/-- The last element with a property is not before one that has it. -/
theorem IsLast.eq_or_mem (hx : IsLast p (before ++ w :: after) x) (hw : p w) :
    x = w ∨ x ∈ after := by
  have hfind := findRev_eq_some_iff.mpr hx
  rw [List.reverse_append, List.reverse_cons, List.append_assoc, List.find?_append] at hfind
  cases hafter : after.reverse.find? fun e => p e with
  | some y =>
      rw [hafter] at hfind
      cases hfind
      exact .inr (List.mem_reverse.mp (List.mem_of_find?_eq_some hafter))
  | none =>
      rw [hafter, Option.none_or, List.singleton_append,
        List.find?_cons_of_pos (p := fun e => decide (p e)) (decide_eq_true hw)] at hfind
      exact .inl (Option.some.inj hfind).symm

/-- An element is shadowed when the form in which its value is shown is claimed. -/
theorem mem_shadowed_iff_claimed (he : e ∈ elements) :
    e ∈ (ofElements typeName elements).shadowed ↔ ShownClaimed elements e := by
  constructor
  · intro hs
    obtain ⟨w, x, hw, hx⟩ := exists_isLast_isLast he
    have hvalue : x.value ≠ e.value := (mem_shadowed_iff he hw hx).mp hs
    obtain ⟨before, after, rfl, hwv, hlast⟩ := hw
    refine ⟨before, w, after, rfl, hwv, hlast, x, ?_, ?_, hwv ▸ hvalue⟩
    · refine (hx.eq_or_mem rfl).resolve_left ?_
      rintro rfl
      exact hvalue hwv
    · exact hx.holds
  · rintro ⟨before, w, after, rfl, hwv, hlast, y, hy, hyd, -⟩
    have hw : IsLast (·.value = e.value) (before ++ w :: after) w :=
      ⟨before, after, rfl, hwv, hlast⟩
    obtain ⟨x, hx⟩ := exists_isLast (p := (·.display = w.display)) hw.mem rfl
    -- the last element with the form is the claimant, or stands after it
    obtain ⟨between, rest, rfl⟩ := List.append_of_mem hy
    have hmem : x ∈ between ++ y :: rest := by
      have hcut : before ++ w :: (between ++ y :: rest) =
          (before ++ w :: between) ++ y :: rest := by simp
      rcases (hcut ▸ hx).eq_or_mem hyd with rfl | hr
      · exact hy
      · exact List.mem_append_right _ (List.mem_cons_of_mem _ hr)
    exact (mem_shadowed_iff he hw hx).mpr (hlast x hmem)

/-- The form of a shadowed element itself is claimed, unless its value is shown in another form and
no element after it has its form with another value. -/
theorem claimed_iff_of_shadowed
    (hs : e ∈ (ofElements typeName (before ++ e :: after)).shadowed) :
    Claimed e after ↔
      ¬ ((ofElements typeName (before ++ e :: after)).display e.value ≠ .ok e.display ∧
        ∀ x ∈ after, x.display = e.display → x.value = e.value) := by
  constructor
  · rintro ⟨x, hx, hd, hv⟩ ⟨-, hall⟩
    exact hv (hall x hx hd)
  · intro hnot
    by_contra hclaimed
    have hall : ∀ x ∈ after, x.display = e.display → x.value = e.value := by
      intro x hx hd
      by_contra hv
      exact hclaimed ⟨x, hx, hd, hv⟩
    refine hnot ⟨fun hshown => hclaimed ?_, hall⟩
    -- the value is shown in the form of the element, which is read as that of a later one
    have he : e ∈ before ++ e :: after := List.mem_append_right _ List.mem_cons_self
    obtain ⟨w, x, hw, hx⟩ := exists_isLast_isLast he
    rw [display_of_isLast hw, Except.ok.injEq] at hshown
    have hvalue : x.value ≠ e.value := (mem_shadowed_iff he hw hx).mp hs
    have hxd : x.display = w.display := hx.holds
    refine ⟨x, (hx.eq_or_mem hshown.symm).resolve_left ?_, hxd.trans hshown, hvalue⟩
    rintro rfl
    exact hvalue rfl

end EnumHelpers.EnumSet

namespace EnumHelpers.Job
open EnumSet

/-- Every set of a job has the tables of its elements. -/
def Tabulated (job : Job) : Prop :=
  ∀ entry ∈ job.enumSets, entry.2 = EnumSet.ofElements entry.2.typeName entry.2.elements

theorem Tabulated.mem_shadowed_iff {job : Job} (hjob : job.Tabulated) {type : String}
    {s : EnumSet} {e : Element} (hs : (type, s) ∈ job.enumSets) (he : e ∈ s.elements) :
    e ∈ s.shadowed ↔ ShownClaimed s.elements e := by
  have hset : s = EnumSet.ofElements s.typeName s.elements := hjob _ hs
  rw [hset, elements_ofElements]
  exact mem_shadowed_iff_claimed he

/-- A warning names an element of a set that is shadowed, and its own form. -/
theorem shadowed_mem_warnings {job : Job} {type constant text : String} :
    Warning.shadowed type constant text ∈ job.warnings ↔
      ∃ s, (type, s) ∈ job.enumSets ∧ ∃ e ∈ s.shadowed, e.name = constant ∧ e.display = text := by
  have hrepeated : Warning.shadowed type constant text ∉
      (repeatedAfter [] job.typeNames).map Warning.repeatedType := by simp
  have hnegative : ∀ sets : OrderedMap String EnumSet, Warning.shadowed type constant text ∉
      sets.map fun entry => Warning.negativeValues entry.1 := by simp
  have hentry : ∀ entry, Warning.shadowed type constant text ∈ shadowWarnings entry ↔
      entry.1 = type ∧ ∃ e ∈ entry.2.shadowed, e.name = constant ∧ e.display = text := by
    intro entry
    simp only [shadowWarnings, List.mem_map, Warning.shadowed.injEq]
    exact ⟨fun ⟨e, he, ht, h⟩ => ⟨ht, e, he, h⟩, fun ⟨ht, e, he, h⟩ => ⟨e, he, ht, h⟩⟩
  have hlast : Warning.shadowed type constant text ∉ (if job.groups.contains .bitmask then
      (job.enumSets.filter fun entry => entry.2.elements.any fun e => e.value < 0).map
        fun entry => Warning.negativeValues entry.1 else []) := by
    split
    · exact hnegative _
    · exact List.not_mem_nil
  rw [warnings, List.mem_append, List.mem_append, or_iff_left hlast, or_iff_right hrepeated,
    List.mem_flatMap]
  constructor
  · rintro ⟨⟨_, s⟩, hs, h⟩
    obtain ⟨rfl, hshadowed⟩ := (hentry _).mp h
    exact ⟨s, hs, hshadowed⟩
  · rintro ⟨s, hs, h⟩
    exact ⟨(type, s), hs, (hentry _).mpr ⟨rfl, h⟩⟩

/-- **Warnings of shadowed elements.**  A job is warned of an element if and only if the form in
which the value of the element is shown is claimed; the warning names the element's own form.  That
form is claimed by a later element as well, unless the value is shown in another one and no later
element has the form with another value. -/
theorem warnings_of_shadowed {job : Job} (hjob : job.Tabulated) :
    (∀ type constant text, Warning.shadowed type constant text ∈ job.warnings ↔
      ∃ s e, (type, s) ∈ job.enumSets ∧ e ∈ s.elements ∧ e.name = constant ∧ e.display = text ∧
        ShownClaimed s.elements e) ∧
    ∀ type s before e after, (type, s) ∈ job.enumSets → s.elements = before ++ e :: after →
      e ∈ s.shadowed →
      (Claimed e after ↔ ¬ (s.display e.value ≠ .ok e.display ∧
        ∀ x ∈ after, x.display = e.display → x.value = e.value)) := by
  constructor
  · intro type constant text
    rw [shadowed_mem_warnings]
    constructor
    · rintro ⟨s, hs, e, he, hname, htext⟩
      have hmem : e ∈ s.elements := (List.mem_filter.mp he).1
      exact ⟨s, e, hs, hmem, hname, htext, (hjob.mem_shadowed_iff hs hmem).mp he⟩
    · rintro ⟨s, e, hs, hmem, hname, htext, h⟩
      exact ⟨s, hs, e, (hjob.mem_shadowed_iff hs hmem).mpr h, hname, htext⟩
  · intro type s before e after hs helements he
    have hset : s = EnumSet.ofElements s.typeName (before ++ e :: after) :=
      helements ▸ hjob _ hs
    rw [hset] at he ⊢
    exact claimed_iff_of_shadowed he

/-- A job with one type, of which the first two elements share a value and the last two a form. -/
def chainJob : Job :=
  ⟨"p", ["T"], [("T", EnumSet.ofElements "T" chainElements)], [.base], "enumer -type=T"⟩

theorem tabulated_chainJob : chainJob.Tabulated := by
  rintro entry hentry
  rw [List.mem_singleton.mp hentry]
  rfl

/-- The second element of the job has its form claimed by the third. -/
theorem warnings_of_chainJob : chainJob.Tabulated ∧
    Warning.shadowed "T" "B" "y" ∈ chainJob.warnings ∧
    Claimed ⟨"B", 1, "y"⟩ [⟨"C", 2, "y"⟩] := by
  obtain ⟨hwarned, hclaimed⟩ := warnings_of_shadowed tabulated_chainJob
  refine ⟨tabulated_chainJob, ?_, ?_⟩
  · refine (hwarned "T" "B" "y").mpr ⟨_, ⟨"B", 1, "y"⟩, List.mem_singleton_self _, by decide, rfl,
      rfl, [⟨"A", 1, "x"⟩], ⟨"B", 1, "y"⟩, [⟨"C", 2, "y"⟩], rfl, rfl, by decide, by decide⟩
  · refine (hclaimed "T" _ [⟨"A", 1, "x"⟩] ⟨"B", 1, "y"⟩ [⟨"C", 2, "y"⟩]
      (List.mem_singleton_self _) rfl (by decide)).mpr ?_
    exact fun h => h.1 rfl

/-- The first element of the job is warned of, and no later one has its form. -/
theorem unclaimed_form_warned : Warning.shadowed "T" "A" "x" ∈ chainJob.warnings ∧
    chainElements = [⟨"A", 1, "x"⟩, ⟨"B", 1, "y"⟩, ⟨"C", 2, "y"⟩] ∧
    ¬ Claimed ⟨"A", 1, "x"⟩ [⟨"B", 1, "y"⟩, ⟨"C", 2, "y"⟩] := by
  decide

end EnumHelpers.Job
