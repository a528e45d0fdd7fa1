import EnumHelpers.Proofs.Enum.Shadowing
import EnumHelpers.Proofs.Enum.Failures

/-!
# Proofs — names without their prefix

Where no comments are used, the form of a constant is its name, without the prefix that the request
asks to remove.  The prefix is removed once.  So a name that stands *behind* the prefix in another
name (`Behind`), and does not itself begin with it, is the form of both, and this is the only way in
which two names come to one form.

* `dropPrefix_eq_iff`: when two names have one form.
* `dropPrefix_eq_self_iff`: when a name is its own form.
* `forms_of_resolve`: which elements of a type share a form, and what the forms of the others are
  read as.
-/

namespace EnumHelpers

/-! ### Forms that one element has -/

namespace EnumSet

variable {typeName : String} {elements : List Element} {e : Element}

/-- No other element has the form of the element. -/
def Alone (elements : List Element) (e : Element) : Prop :=
  ∀ x ∈ elements, x.display = e.display → x = e

theorem parse_of_alone (he : e ∈ elements) (halone : Alone elements e) :
    (ofElements typeName elements).parse e.display = .ok e.value := by
  obtain ⟨w, hw⟩ := exists_isLast (p := (·.display = e.display)) he rfl
  rw [parse_of_isLast hw, halone w hw.mem hw.holds]

theorem shadowed_eq_nil_of_alone (halone : ∀ e ∈ elements, Alone elements e) :
    (ofElements typeName elements).shadowed = [] := by
  rw [List.eq_nil_iff_forall_not_mem]
  intro e hs
  have he : e ∈ elements := by
    have hmem := (List.mem_filter.mp hs).1
    rwa [elements_ofElements] at hmem
  obtain ⟨w, x, hw, hx⟩ := exists_isLast_isLast he
  have hxw : x = w := halone w hw.mem x hx.mem hx.holds
  exact (mem_shadowed_iff he hw hx).mp hs (hxw ▸ hw.holds)

end EnumSet

namespace Enum
open SymbolTable EnumSet

variable {p a b name : String}

/-! ### Forms of names -/

theorem dropPrefix_append (p name : String) : dropPrefix p (p ++ name) = name := by
  simp [dropPrefix]

theorem dropPrefix_of_not_isPrefix (h : ¬ p.toList <+: name.toList) :
    dropPrefix p name = name := by
  simp [dropPrefix, h]

/-- A name is the prefix with its form behind it, or does not begin with the prefix. -/
theorem dropPrefix_cases (p name : String) :
    name = p ++ dropPrefix p name ∨ ¬ p.toList <+: name.toList ∧ dropPrefix p name = name := by
  by_cases h : p.toList <+: name.toList
  · obtain ⟨rest, hrest⟩ := h
    have hname : name = p ++ String.ofList rest := by
      simp [← String.toList_inj, hrest]
    exact .inl (by rw [hname, dropPrefix_append])
  · exact .inr ⟨h, dropPrefix_of_not_isPrefix h⟩

/-- A name is its own form when there is no prefix, or the name does not begin with it. -/
theorem dropPrefix_eq_self_iff :
    dropPrefix p name = name ↔ p = "" ∨ ¬ p.toList <+: name.toList := by
  constructor
  · intro h
    rcases dropPrefix_cases p name with hname | ⟨hp, -⟩
    · have hlist := congrArg String.toList hname
      rw [h, String.toList_append] at hlist
      exact .inl (String.toList_eq_nil_iff.mp (List.self_eq_append_left.mp hlist))
    · exact .inr hp
  · rintro (rfl | h)
    · exact dropPrefix_append "" name
    · exact dropPrefix_of_not_isPrefix h

/-- The form of a name is the end of it. -/
theorem dropPrefix_isSuffix (p name : String) : (dropPrefix p name).toList <:+ name.toList := by
  rcases dropPrefix_cases p name with h | ⟨-, h⟩
  · exact ⟨p.toList, by rw [← String.toList_append, ← h]⟩
  · simp [h]

/-- The first name is the second one behind the prefix, and the second does not begin with it. -/
def Behind (p a b : String) : Prop := a = p ++ b ∧ ¬ p.toList <+: b.toList

instance (p a b : String) : Decidable (Behind p a b) :=
  inferInstanceAs (Decidable (_ ∧ _))

theorem not_behind_empty : ¬ Behind "" a b := fun h => h.2 List.nil_prefix

theorem Behind.dropPrefix_eq (h : Behind p a b) : dropPrefix p a = dropPrefix p b := by
  rw [h.1, dropPrefix_append, dropPrefix_of_not_isPrefix h.2]

/-- **Two names have one form** if and only if one of them is the other behind the prefix. -/
theorem dropPrefix_eq_iff (hne : a ≠ b) :
    dropPrefix p a = dropPrefix p b ↔ Behind p a b ∨ Behind p b a := by
  constructor
  · intro h
    rcases dropPrefix_cases p a with ha | ⟨hpa, ha⟩
    · rcases dropPrefix_cases p b with hb | ⟨hpb, hb⟩
      · exact absurd (ha.trans (h ▸ hb.symm)) hne
      · rw [h, hb] at ha
        exact .inl ⟨ha, hpb⟩
    · rcases dropPrefix_cases p b with hb | ⟨-, hb⟩
      · rw [← h, ha] at hb
        exact .inr ⟨hb, hpa⟩
      · exact absurd (ha.symm.trans (h.trans hb)) hne
  · rintro (h | h)
    · exact h.dropPrefix_eq
    · exact h.dropPrefix_eq.symm

/-! ### Forms of members -/

variable {t : SymbolTable} {request : Request} {type : String} {members : List Member}
  {elements : List Element}

theorem trimmedName_text (request : Request) (name : String) :
    trimmedName request (.str name) = .ok (.str (dropPrefix request.trimPrefix name)) := by
  rw [trimmedName]
  split
  · rename_i hp
    rw [hp, dropPrefix_eq_self_iff.mpr (.inl rfl)]
  · rfl

theorem trimmedName_of_empty {name form : Json} (hp : request.trimPrefix = "")
    (h : trimmedName request name = .ok form) : form = name := by
  unfold trimmedName at h
  rw [if_pos hp] at h
  exact (Except.ok.inj h).symm

/-- A prefix is removed from texts only. -/
theorem trimmedName_of_ne {name form : Json} (hp : request.trimPrefix ≠ "")
    (h : trimmedName request name = .ok form) :
    ∃ s, name = .str s ∧ form = .str (dropPrefix request.trimPrefix s) := by
  unfold trimmedName at h
  rw [if_neg hp] at h
  cases name with
  | str s => exact ⟨s, rfl, (Except.ok.inj h).symm⟩
  | null | bool _ | int _ | float _ | arr _ | obj _ => cases h

theorem trimmedName_of_memberOf (hc : request.useLineComment = false) {seen : List Json}
    {r : ConstantRecord} {m : Member} (h : memberOf request seen r = .ok m) :
    trimmedName request m.name = .ok m.display := by
  rw [memberOf] at h
  split at h
  · cases h
  · split at h
    · exact absurd h bind_error_ne_ok
    · obtain ⟨_, -, h⟩ := bind_eq_ok.mp h
      obtain ⟨text, ht, h⟩ := bind_eq_ok.mp h
      cases h
      obtain ⟨form, hform, ht⟩ := bind_eq_ok.mp ht
      rw [hc, Bool.false_and, if_neg Bool.false_ne_true] at ht
      exact ht ▸ hform

/-- Where no comments are used, the form of every member is its name without the prefix. -/
theorem trimmedName_of_membersFrom (hc : request.useLineComment = false) {seen : List Json}
    {records : List ConstantRecord} (h : membersFrom request seen records = .ok members) :
    ∀ m ∈ members, trimmedName request m.name = .ok m.display := by
  induction records generalizing seen members with
  | nil =>
      cases h
      simp
  | cons r rest ih =>
      obtain ⟨m, hm, h⟩ := bind_eq_ok.mp h
      obtain ⟨more, hmore, h⟩ := bind_eq_ok.mp h
      cases h
      exact List.forall_mem_cons.mpr ⟨trimmedName_of_memberOf hc hm, ih hmore⟩

/-- The name of the first member is that of the second behind the prefix. -/
def Member.Behind (p : String) (m m' : Member) : Prop :=
  ∃ a b, m.name = .str a ∧ m'.name = .str b ∧ Enum.Behind p a b

/-- Two members whose names differ have one form if and only if the name of one of them is that of
the other behind the prefix. -/
theorem same_display_iff {m m' : Member} (hne : m.name.same m'.name = false)
    (hm : trimmedName request m.name = .ok m.display)
    (hm' : trimmedName request m'.name = .ok m'.display) :
    m.display.same m'.display = true ↔
      Member.Behind request.trimPrefix m m' ∨ Member.Behind request.trimPrefix m' m := by
  by_cases hp : request.trimPrefix = ""
  · rw [trimmedName_of_empty hp hm, trimmedName_of_empty hp hm', hne, hp]
    simp [Member.Behind, not_behind_empty]
  · obtain ⟨a, ha, hd⟩ := trimmedName_of_ne hp hm
    obtain ⟨b, hb, hd'⟩ := trimmedName_of_ne hp hm'
    have hab : a ≠ b := by simpa [ha, hb, Json.same_str] using hne
    rw [hd, hd', Json.same_str, beq_iff_eq, dropPrefix_eq_iff hab]
    simp [Member.Behind, ha, hb]

/-- Members are elements when all their names and forms are texts. -/
theorem exists_elementsOf (h : ∀ m ∈ members, ∃ e, m.element? = some e) :
    ∃ elements, elementsOf members = .ok elements := by
  have hall : ∃ elements, members.mapM Member.element? = some elements := by
    induction members with
    | nil => exact ⟨[], rfl⟩
    | cons m rest ih =>
        obtain ⟨⟨e, he⟩, hrest⟩ := List.forall_mem_cons.mp h
        obtain ⟨more, hmore⟩ := ih hrest
        exact ⟨e :: more, by rw [List.mapM_cons, he, hmore]; rfl⟩
  obtain ⟨elements, he⟩ := hall
  exact ⟨elements, by rw [elementsOf, he]⟩

/-! ### Forms of elements -/

/-- Every element is that of a member. -/
theorem exists_member_of_mem (h : elementsOf members = .ok elements) :
    ∀ e ∈ elements, ∃ m ∈ members, m.element? = some e := by
  rw [elementsOf] at h
  split at h
  · rename_i he
    cases h
    clear * - he
    induction members generalizing elements with
    | nil =>
        cases he
        simp
    | cons m rest ih =>
        rw [List.mapM_cons] at he
        obtain ⟨e, hm, he⟩ := Option.bind_eq_some_iff.mp he
        obtain ⟨more, hmore, he⟩ := Option.bind_eq_some_iff.mp he
        cases he
        refine List.forall_mem_cons.mpr ⟨⟨m, List.mem_cons_self, hm⟩, fun e' he' => ?_⟩
        obtain ⟨m', hm', he'⟩ := ih hmore e' he'
        exact ⟨m', List.mem_cons_of_mem _ hm', he'⟩
  · cases h

/-- Where no comments are used, the form of every element is its name without the prefix. -/
theorem display_of_mem_elements (hr : resolve t request = .ok members)
    (hc : request.useLineComment = false) (he : elementsOf members = .ok elements) :
    ∀ e ∈ elements, e.display = dropPrefix request.trimPrefix e.name := by
  intro e hmem
  obtain ⟨m, hm, hme⟩ := exists_member_of_mem he e hmem
  obtain ⟨hname, -, hdisplay⟩ := element?_eq_some hme
  obtain ⟨records, -, hmembers⟩ := bind_eq_ok.mp hr
  have hform := trimmedName_of_membersFrom hc hmembers m hm
  rw [hname, hdisplay, trimmedName_text, Except.ok.injEq, Json.str.injEq] at hform
  exact hform.symm

/-- An element in no pair has its form alone. -/
theorem alone_of_not_behind (hnames : (elements.map Element.name).Nodup)
    (hforms : ∀ e ∈ elements, e.display = dropPrefix p e.name) {e : Element} (he : e ∈ elements)
    (halone : ∀ x ∈ elements, ¬ Behind p e.name x.name ∧ ¬ Behind p x.name e.name) :
    Alone elements e := by
  intro x hx h
  by_contra hne
  have hname : x.name ≠ e.name := fun hname => hne (List.inj_on_of_nodup_map hnames hx he hname)
  rw [hforms x hx, hforms e he, dropPrefix_eq_iff hname] at h
  exact h.elim (halone x hx).2 (halone x hx).1

/-- **The forms of a type without comments.**  Two members share a form if and only if the name of
one is that of the other behind the prefix.  With a prefix all names are texts, so that the members
are elements.  The form of an element in no such pair is read as its value.  Without a prefix every
name is read as the value of its element, and no element is shadowed. -/
theorem forms_of_resolve (hr : resolve t ⟨type, p, false⟩ = .ok members) :
    members.Pairwise (fun m m' => m.display.same m'.display = true ↔
      Member.Behind p m m' ∨ Member.Behind p m' m) ∧
    (p ≠ "" → ∃ elements, elementsOf members = .ok elements) ∧
    ∀ elements, elementsOf members = .ok elements →
      (∀ e ∈ elements,
        (∀ x ∈ elements, ¬ Behind p e.name x.name ∧ ¬ Behind p x.name e.name) →
        (ofElements type elements).parse e.display = .ok e.value) ∧
      (p = "" → (∀ e ∈ elements, (ofElements type elements).parse e.name = .ok e.value) ∧
        (ofElements type elements).shadowed = []) := by
  obtain ⟨records, -, hmembers⟩ := bind_eq_ok.mp hr
  have htrimmed := trimmedName_of_membersFrom rfl hmembers
  refine ⟨?_, fun hp => ?_, fun elements he => ?_⟩
  · exact (distinct_membersFrom hmembers).2.imp_of_mem fun hm hm' hne =>
      same_display_iff hne (htrimmed _ hm) (htrimmed _ hm')
  · refine exists_elementsOf fun m hm => ?_
    obtain ⟨s, hs, hd⟩ := trimmedName_of_ne hp (htrimmed m hm)
    exact ⟨⟨s, m.value, dropPrefix p s⟩, by rw [Member.element?, hs, hd]⟩
  · have hnames := nodup_names_of_resolve hr he
    have hforms := display_of_mem_elements hr rfl he
    refine ⟨fun e hmem hpair => ?_, ?_⟩
    · exact parse_of_alone hmem (alone_of_not_behind hnames hforms hmem hpair)
    rintro rfl
    have halone : ∀ e ∈ elements, Alone elements e := fun e hmem =>
      alone_of_not_behind hnames hforms hmem fun _ _ => ⟨not_behind_empty, not_behind_empty⟩
    refine ⟨fun e hmem => ?_, shadowed_eq_nil_of_alone halone⟩
    have hname : e.display = e.name :=
      (hforms e hmem).trans (dropPrefix_eq_self_iff.mpr (.inl rfl))
    exact hname ▸ parse_of_alone hmem (halone e hmem)

/-! ### A name behind the prefix -/

/-- A table in which the name of one constant is that of another behind a prefix. -/
def compassTable : SymbolTable where
  package := .str "p"
  types := [⟨.str "T", .null⟩]
  constants := [
    ⟨.str "DirNorth", .str "T", .exact (.whole 1), .str "a.go", .int 0, .null⟩,
    ⟨.str "North", .str "T", .exact (.whole 2), .str "a.go", .int 1, .null⟩,
    ⟨.str "DirDirEast", .str "T", .exact (.whole 3), .str "a.go", .int 2, .null⟩]

theorem ordered_compassTable : compassTable.ordered = .ok compassTable.constants := by
  have h : allComparable compassTable.constants = true := by
    simp [compassTable, allComparable, comparable, recordBefore?, Json.same, Json.before?,
      Json.measure?, Json.Measure.same]
  have hle : compassTable.constants.Pairwise fun a b => mayPrecede a b = true := by
    simp [compassTable, mayPrecede, recordBefore?, Json.same_str, Json.same_int, Json.before?_int]
  rw [SymbolTable.ordered, if_pos h, List.mergeSort_of_pairwise hle]

theorem constants_compassTable : constants compassTable "T" = .ok compassTable.constants := by
  have handle : compassTable.handle? (.str "T") = some ⟨.str "T", .null⟩ := by
    simp [handle?, compassTable, handleIn?, Json.same]
  have canonical : compassTable.canonical (.str "T") = .ok (.str "T") := by
    simp [SymbolTable.canonical, canonicalFrom, handle, isNull, Json.isKey]
  have records : recordsOf compassTable (.str "T") compassTable.constants =
      .ok compassTable.constants := by
    show recordsOf compassTable (.str "T") [_, _, _] = _
    simp [recordsOf, hasType, isNull, canonical, Json.same]
    rfl
  have nonempty : compassTable.constants ≠ [] := List.cons_ne_nil _ _
  simp [constants, lookup, handle, canonical, ordered_compassTable, records, nonempty]

theorem resolve_compassTable (p : String) : resolve compassTable ⟨"T", p, false⟩ =
    .ok [⟨.str "DirNorth", 1, .str (dropPrefix p "DirNorth")⟩,
      ⟨.str "North", 2, .str (dropPrefix p "North")⟩,
      ⟨.str "DirDirEast", 3, .str (dropPrefix p "DirDirEast")⟩] := by
  rw [resolve, constants_compassTable, ok_bind]
  show membersFrom _ _ [_, _, _] = _
  simp [membersFrom, memberOf, displayOf, trimmedName_text, Json.same, Json.isKey]
  rfl

theorem forms_of_compassTable :
    resolve compassTable ⟨"T", "Dir", false⟩ =
      .ok [⟨.str "DirNorth", 1, .str "North"⟩, ⟨.str "North", 2, .str "North"⟩,
        ⟨.str "DirDirEast", 3, .str "DirEast"⟩] ∧
    Behind "Dir" "DirNorth" "North" ∧
    (ofElements "T" [⟨"DirNorth", 1, "North"⟩, ⟨"North", 2, "North"⟩,
      ⟨"DirDirEast", 3, "DirEast"⟩]).parse "DirEast" = .ok 3 := by
  have hr := resolve_compassTable "Dir"
  obtain ⟨-, -, helements⟩ := forms_of_resolve hr
  obtain ⟨hparse, -⟩ := helements _ rfl
  refine ⟨hr, by decide, hparse ⟨"DirDirEast", 3, "DirEast"⟩ (by decide) (by decide)⟩

end Enum
end EnumHelpers
