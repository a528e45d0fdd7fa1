import EnumHelpers.Proofs.Symbol.Names

/-!
# Proofs — how resolution fails

In a table with names every failure to resolve a type is one of generation, with two exceptions
(`Halts`): a value that cannot even be refused, since it has the form of an octal number and is
none or since it is too long for a message, and a comment that is no text where comments are used.

* `integer_cases`: which values cannot be refused.
* `resolve_halts_iff`: a type is not resolved, and not refused either, if and only if the first of
  its records that does not become a member is such an exception.
-/

namespace EnumHelpers

/-! ### Values -/

namespace Recorded
open Number Text

/-- A value that cannot be refused: a text with the form of an octal number that spells no integer,
or a value that a message has no room for. -/
def Unreadable : Recorded → Prop
  | .exact (.text s) => looksOctal (trim s).toList = true ∧
      (∀ n, readInteger 0 (trim s) ≠ .ok n) ∧ ∀ n, readInteger 8 (trim s) ≠ .ok n
  | .exact (.ratio q) => ∃ cause, shown (.exact (.ratio q)) = .error cause
  | .other v => ∃ cause, shown (.other v) = .error cause
  | _ => False

/-- A computation whose faults are all of numbers fails for one. -/
theorem fault_of_mapError {α : Type} {x : Except Number.Fault α} {cause : Failure}
    (h : x.mapError Failure.number = .error cause) : ∃ fault, cause = .number fault := by
  obtain ⟨fault, -, rfl⟩ := mapError_eq_error.mp h
  exact ⟨fault, rfl⟩

/-- A value without a form in a message is an integer that is too long, or holds one. -/
theorem number_of_shown {v : Recorded} {cause : Failure} (h : v.shown = .error cause) :
    ∃ fault, cause = .number fault := by
  cases v with
  | absent => cases h
  | other v => exact fault_of_mapError h
  | exact c =>
      rw [shown] at h
      cases c with
      | whole n =>
          rw [shownConstant] at h
          exact fault_of_mapError h
      | ratio q =>
          rw [shownConstant] at h
          rcases bind_eq_error.mp h with h | ⟨n, -, h⟩
          · exact fault_of_mapError h
          · exact fault_of_mapError (bind_ok_eq_error.mp h)
      | text s => cases h
      | truth b => cases h

/-- A value is refused, unless it has no form in a message. -/
theorem refuse_cases (name : String) (v : Recorded) :
    (∃ fault, refuse (.str name) v = .error (.value fault) ∧ ∃ s, v.shown = .ok s) ∨
      ∃ fault, refuse (.str name) v = .error (.number fault) ∧ ∃ cause, v.shown = .error cause := by
  cases h : v.shown with
  | ok s => exact .inl ⟨.notExact name s, by rw [refuse, h]; rfl, s, rfl⟩
  | error cause =>
      obtain ⟨fault, rfl⟩ := number_of_shown h
      exact .inr ⟨fault, by rw [refuse, h]; rfl, _, rfl⟩

/-- A text is refused without fail. -/
theorem refuse_text (name s : String) :
    refuse (.str name) (.exact (.text s)) = .error (.value (.notExact name (quoted s))) := rfl

theorem integer_text_cases (name s : String) :
    (¬ Unreadable (.exact (.text s)) ∧ ((∃ n, integer (.exact (.text s)) (.str name) = .ok n) ∨
        ∃ fault, integer (.exact (.text s)) (.str name) = .error (.value fault))) ∨
      (Unreadable (.exact (.text s)) ∧
        ∃ fault, integer (.exact (.text s)) (.str name) = .error (.number fault)) := by
  simp only [integer, Unreadable, refuse_text]
  generalize readInteger 0 (trim s) = zero
  generalize readInteger 8 (trim s) = eight
  cases zero with
  | ok n => exact .inl ⟨fun h => h.2.1 n rfl, .inl ⟨n, rfl⟩⟩
  | error fault =>
      cases looksOctal (trim s).toList with
      | false => exact .inl ⟨fun h => Bool.noConfusion h.1, .inr ⟨_, rfl⟩⟩
      | true =>
          cases eight with
          | ok n => exact .inl ⟨fun h => h.2.2 n rfl, .inl ⟨n, rfl⟩⟩
          | error fault => exact .inr ⟨⟨rfl, nofun, nofun⟩, fault, rfl⟩

/-- **A value is an integer, or is refused, or is unreadable.** -/
theorem integer_cases (name : String) (v : Recorded) :
    (¬ v.Unreadable ∧ ((∃ n, v.integer (.str name) = .ok n) ∨
        ∃ fault, v.integer (.str name) = .error (.value fault))) ∨
      (v.Unreadable ∧ ∃ fault, v.integer (.str name) = .error (.number fault)) := by
  cases v with
  | absent => exact .inl ⟨id, .inr ⟨_, rfl⟩⟩
  | other v =>
      rcases refuse_cases name (.other v) with ⟨fault, h, s, hs⟩ | ⟨fault, h, hc⟩
      · refine .inl ⟨?_, .inr ⟨fault, h⟩⟩
        rintro ⟨cause, hc⟩
        rw [hs] at hc
        cases hc
      · exact .inr ⟨hc, fault, h⟩
  | exact c =>
      cases c with
      | whole n => exact .inl ⟨id, .inl ⟨n, rfl⟩⟩
      | truth b => exact .inl ⟨id, .inr ⟨_, rfl⟩⟩
      | ratio q =>
          rcases refuse_cases name (.exact (.ratio q)) with ⟨fault, h, s, hs⟩ | ⟨fault, h, hc⟩
          · refine .inl ⟨?_, .inr ⟨fault, h⟩⟩
            rintro ⟨cause, hc⟩
            rw [hs] at hc
            cases hc
          · exact .inr ⟨hc, fault, h⟩
      | text s => exact integer_text_cases name s

end Recorded

namespace Enum
open SymbolTable

variable {t : SymbolTable} {request : Request}

/-! ### Members -/

/-- A comment that is used and is no text. -/
def BadComment (request : Request) (r : ConstantRecord) : Prop :=
  request.useLineComment = true ∧ r.comment.isGiven = true ∧ ∀ s, r.comment ≠ .str s

/-- A record at which resolution neither goes on nor is refused: its value is unreadable, or it has
an integer and its comment is no text. -/
def Halts (request : Request) (r : ConstantRecord) : Prop :=
  r.value.Unreadable ∨ (∃ n, r.value.integer r.name = .ok n) ∧ BadComment request r

theorem trimmedName_str (request : Request) (name : String) :
    ∃ text, trimmedName request (.str name) = .ok (.str text) := by
  rw [trimmedName]
  split
  · exact ⟨name, rfl⟩
  · exact ⟨_, rfl⟩

/-- A record with a name has a string form, unless its comment is no text. -/
theorem displayOf_cases (request : Request) {r : ConstantRecord} {name : String}
    (hr : r.name = .str name) :
    (¬ BadComment request r ∧ ∃ text, displayOf request r = .ok (.str text)) ∨
      (BadComment request r ∧ displayOf request r = .error .noSuchOperation) := by
  obtain ⟨text, htext⟩ := trimmedName_str request name
  rw [displayOf, hr, htext, ok_bind]
  split
  · rename_i hused
    rw [Bool.and_eq_true] at hused
    split
    · rename_i comment hc
      exact .inl ⟨fun h => h.2.2 comment hc, by split <;> exact ⟨_, rfl⟩⟩
    · rename_i hc
      exact .inr ⟨⟨hused.1, hused.2, hc⟩, rfl⟩
  · rename_i hused
    rw [Bool.and_eq_true] at hused
    exact .inl ⟨fun h => hused ⟨h.1, h.2.1⟩, text, rfl⟩

/-- A record gives a member with a text for a name and a text to show, or is refused, or halts. -/
theorem memberOf_cases (request : Request) {r : ConstantRecord} {name : String}
    (hr : r.name = .str name) (seen : List Json) :
    (∃ m e, memberOf request seen r = .ok m ∧ m.element? = some e) ∨
      (∃ cause, memberOf request seen r = .error cause ∧ cause.isGeneration = true) ∨
      ((seen.any fun s => s.same r.name) = false ∧ Halts request r ∧
        ∃ cause, memberOf request seen r = .error cause ∧ cause.isGeneration = false) := by
  have hkey : r.name.isKey = true := by rw [hr]; rfl
  simp only [memberOf, hkey, Bool.not_true, Bool.false_eq_true, if_false]
  by_cases hseen : (seen.any fun s => s.same r.name) = true
  · rw [if_pos hseen, hr]
    exact .inr (.inl ⟨_, rfl, rfl⟩)
  · rw [if_neg hseen]
    rw [Bool.not_eq_true] at hseen
    rcases Recorded.integer_cases name r.value with ⟨hv, ⟨n, hn⟩ | ⟨fault, hf⟩⟩ | ⟨hv, fault, hf⟩
    · rcases displayOf_cases request hr with ⟨hc, text, ht⟩ | ⟨hc, he⟩
      · exact .inl ⟨_, ⟨name, n, text⟩, by rw [hr, hn, ht]; rfl, rfl⟩
      · rw [← hr] at hn
        exact .inr (.inr ⟨hseen, .inr ⟨⟨n, hn⟩, hc⟩, _, by rw [hn, ok_bind, he]; rfl, rfl⟩)
    · exact .inr (.inl ⟨_, by rw [hr, hf]; rfl, rfl⟩)
    · exact .inr (.inr ⟨hseen, .inl hv, _, by rw [hr, hf]; rfl, rfl⟩)

/-- A record stops the run if and only if no record before it has its name and it halts. -/
theorem memberOf_halts_iff {r : ConstantRecord} {name : String} (hr : r.name = .str name)
    {seen : List Json} :
    (∃ cause, memberOf request seen r = .error cause ∧ cause.isGeneration = false) ↔
      (seen.any fun s => s.same r.name) = false ∧ Halts request r := by
  constructor
  · rintro ⟨cause, h, hcause⟩
    rcases memberOf_cases request hr seen with
      ⟨m, e, hm, -⟩ | ⟨cause', h', hcause'⟩ | ⟨hseen, hh, -⟩
    · rw [hm] at h
      cases h
    · rw [h'] at h
      cases h
      rw [hcause'] at hcause
      cases hcause
    · exact ⟨hseen, hh⟩
  · rintro ⟨hseen, hh⟩
    have hkey : r.name.isKey = true := by rw [hr]; rfl
    simp only [memberOf, hkey, Bool.not_true, Bool.false_eq_true, if_false, hseen]
    rcases hh with hv | ⟨⟨n, hn⟩, hc⟩
    · rcases Recorded.integer_cases name r.value with ⟨hn, -⟩ | ⟨-, fault, hf⟩
      · exact absurd hv hn
      · exact ⟨_, by rw [hr, hf]; rfl, rfl⟩
    · rcases displayOf_cases request hr with ⟨hn, -⟩ | ⟨-, he⟩
      · exact absurd hc hn
      · exact ⟨_, by rw [hn, ok_bind, he]; rfl, rfl⟩

/-- Records fail at the first one that gives no member. -/
theorem membersFrom_eq_error_iff {seen : List Json} {rs : List ConstantRecord} {cause : Failure} :
    membersFrom request seen rs = .error cause ↔
      ∃ before r after, rs = before ++ r :: after ∧
        (∃ members, membersFrom request seen before = .ok members) ∧
        memberOf request ((before.map ConstantRecord.name).reverse ++ seen) r = .error cause := by
  induction rs generalizing seen with
  | nil =>
      constructor
      · rintro ⟨⟩
      · rintro ⟨before, r, after, h, -⟩
        exact absurd h.symm (List.append_ne_nil_of_right_ne_nil _ (List.cons_ne_nil _ _))
  | cons first rest ih =>
      rw [membersFrom, bind_eq_error]
      constructor
      · rintro (h | ⟨m, hm, h⟩)
        · exact ⟨[], first, rest, rfl, ⟨[], rfl⟩, h⟩
        · obtain ⟨before, r, after, rfl, ⟨members, hb⟩, hr⟩ := ih.mp (bind_ok_eq_error.mp h)
          refine ⟨first :: before, r, after, rfl, ⟨m :: members, ?_⟩, ?_⟩
          · rw [membersFrom, hm, ok_bind, hb]
            rfl
          · rwa [List.map_cons, List.reverse_cons, List.append_assoc]
      · rintro ⟨before, r, after, h, ⟨members, hb⟩, hr⟩
        cases before with
        | nil =>
            cases h
            exact .inl hr
        | cons _ before =>
            cases h
            obtain ⟨m, hm, hb⟩ := bind_eq_ok.mp hb
            obtain ⟨more, hb, -⟩ := bind_eq_ok.mp hb
            rw [List.map_cons, List.reverse_cons, List.append_assoc] at hr
            exact .inr ⟨m, hm,
              bind_ok_eq_error.mpr (ih.mpr ⟨before, r, after, rfl, ⟨more, hb⟩, hr⟩)⟩

/-- The members of records with names are elements. -/
theorem elementsOf_membersFrom {seen : List Json} {rs : List ConstantRecord}
    {members : List Member} (hn : ∀ r ∈ rs, ∃ s, r.name = .str s)
    (h : membersFrom request seen rs = .ok members) :
    ∃ elements, members.mapM Member.element? = some elements := by
  induction rs generalizing seen members with
  | nil =>
      cases h
      exact ⟨[], rfl⟩
  | cons r rest ih =>
      obtain ⟨m, hm, h⟩ := bind_eq_ok.mp h
      obtain ⟨more, hmore, h⟩ := bind_eq_ok.mp h
      cases h
      rw [List.forall_mem_cons] at hn
      obtain ⟨elements, he⟩ := ih hn.2 hmore
      obtain ⟨name, hname⟩ := hn.1
      rcases memberOf_cases request hname seen with
        ⟨m', e, hm', he'⟩ | ⟨cause, hc, -⟩ | ⟨-, -, cause, hc, -⟩
      · rw [hm] at hm'
        cases hm'
        exact ⟨e :: elements, by rw [List.mapM_cons, he', he]; rfl⟩
      · rw [hm] at hc
        cases hc
      · rw [hm] at hc
        cases hc

/-! ### Types -/

/-- Resolving a type halts at a record: the type is declared, the records of the type that come
before it give members, none of which has its name, and it halts. -/
def HaltsAt (t : SymbolTable) (request : Request) (r : ConstantRecord) : Prop :=
  (∃ h, t.lookup request.name = .ok h) ∧
    ∃ before after, recordsWith t request.name = before ++ r :: after ∧
      (∃ members, membersFrom request [] before = .ok members) ∧
      r.name ∉ before.map ConstantRecord.name ∧ Halts request r

theorem mem_of_mem_recordsWith {typeName : String} {r : ConstantRecord}
    (h : r ∈ recordsWith t typeName) : r ∈ t.constants :=
  List.mem_mergeSort.mp (List.mem_filter.mp h).1

/-- Among texts only an equal one is the same. -/
theorem any_same_eq_false {names : List Json} (hn : ∀ v ∈ names, ∃ s, v = .str s) {name : Json}
    (hname : ∃ s, name = .str s) : (names.any fun v => v.same name) = false ↔ name ∉ names := by
  obtain ⟨s, rfl⟩ := hname
  rw [List.any_eq_false]
  constructor
  · intro h hm
    exact h _ hm (by rw [Json.same_str, beq_self_eq_true])
  · intro h v hv hs
    obtain ⟨s', rfl⟩ := hn v hv
    rw [Json.same_str, beq_iff_eq] at hs
    exact h (hs ▸ hv)

/-- The members of a type are elements. -/
theorem elementsOf_resolve (ht : t.Named) {members : List Member}
    (h : resolve t request = .ok members) : ∃ elements, elementsOf members = .ok elements := by
  obtain ⟨records, hc, hm⟩ := bind_eq_ok.mp h
  obtain ⟨elements, he⟩ := elementsOf_membersFrom
    (fun r hr => ht.names r (mem_of_mem_constants hc r hr)) hm
  exact ⟨elements, by rw [elementsOf, he]⟩

/-- A declared type with constants fails as its records do; any other type is refused. -/
theorem resolve_eq_error_iff (ht : t.Named) {cause : Failure}
    (hcause : cause.isGeneration = false) :
    resolve t request = .error cause ↔ (∃ h, t.lookup request.name = .ok h) ∧
      membersFrom request [] (recordsWith t request.name) = .error cause := by
  rw [resolve, constants_of_named ht]
  rcases ht.lookup request.name with ⟨handle, hh⟩ | ⟨package, hp⟩
  · rw [hh, ok_bind]
    cases hrecords : recordsWith t request.name with
    | nil =>
        constructor
        · rintro ⟨⟩
          cases hcause
        · rintro ⟨-, ⟨⟩⟩
    | cons r rest => exact ⟨fun h => ⟨⟨handle, rfl⟩, h⟩, fun h => h.2⟩
  · rw [hp]
    constructor
    · rintro ⟨⟩
      cases hcause
    · rintro ⟨⟨h, hh⟩, -⟩
      cases hh

/-- **Resolution stops the run** on a table with names if and only if it halts at a record; any
other failure is one of generation. -/
theorem resolve_halts_iff (ht : t.Named) :
    (∃ cause, resolve t request = .error cause ∧ cause.isGeneration = false) ↔
      ∃ r, HaltsAt t request r := by
  have hname : ∀ r ∈ recordsWith t request.name, ∃ s, r.name = .str s :=
    fun r hr => ht.names r (mem_of_mem_recordsWith hr)
  have hfresh : ∀ before r after, recordsWith t request.name = before ++ r :: after →
      (((before.map ConstantRecord.name).reverse ++ []).any (fun s => s.same r.name) = false ↔
        r.name ∉ before.map ConstantRecord.name) := by
    intro before r after h
    rw [h] at hname
    rw [List.append_nil, List.any_reverse]
    refine any_same_eq_false (fun v hv => ?_) (hname r (by simp))
    obtain ⟨b, hb, rfl⟩ := List.mem_map.mp hv
    exact hname b (List.mem_append_left _ hb)
  constructor
  · rintro ⟨cause, h, hcause⟩
    obtain ⟨hl, h⟩ := (resolve_eq_error_iff ht hcause).mp h
    obtain ⟨before, r, after, hsplit, hb, hr⟩ := membersFrom_eq_error_iff.mp h
    obtain ⟨name, hn⟩ := hname r (by simp [hsplit])
    obtain ⟨hseen, hh⟩ := (memberOf_halts_iff hn).mp ⟨cause, hr, hcause⟩
    exact ⟨r, hl, before, after, hsplit, hb, (hfresh _ _ _ hsplit).mp hseen, hh⟩
  · rintro ⟨r, hl, before, after, hsplit, hb, hnew, hh⟩
    obtain ⟨name, hn⟩ := hname r (by simp [hsplit])
    obtain ⟨cause, hr, hcause⟩ :=
      (memberOf_halts_iff hn).mpr ⟨(hfresh _ _ _ hsplit).mpr hnew, hh⟩
    exact ⟨cause, (resolve_eq_error_iff ht hcause).mpr
      ⟨hl, membersFrom_eq_error_iff.mpr ⟨before, r, after, hsplit, hb, hr⟩⟩, hcause⟩

end Enum

end EnumHelpers
