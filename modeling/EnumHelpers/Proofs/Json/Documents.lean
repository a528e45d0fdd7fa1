import EnumHelpers.Proofs.Json.Grammar

/-!
# Proofs — which texts are documents

A text is read as a value if and only if it is a document: one value of the grammar, with white
space around it (`read_ok_iff`).  Every other text is malformed, but for one: where the reader comes
upon an integer with too many digits, and so far the text could still become a document, it stops at
the integer (`read_integer_iff`), whatever stands behind.

The three mutual readers are treated as one that reads a `Part`.  By induction on the fuel, what
they take is spelled by the grammar (`tells`); by induction on the grammar, what is spelled
is taken (`reads_spells`), and an integer that is too long is come upon (`reads_leads`).  The fuel
never decides: a part takes no more than twice its length.
-/

namespace EnumHelpers.Json
open Number

variable {cs rest ws ws' : List Char}

/-! ### Values, items and fields -/

/-- The parts of a document: a value, the items of a list and the fields of an object, each with
the closing bracket. -/
inductive Part where
  | value
  | items
  | fields

/-- A key with its colon and the white space around it. -/
inductive Key : List Char → Prop where
  | mk {body ws ws' : List Char} : TextBody body → Space ws → Space ws' →
      Key ('"' :: (body ++ '"' :: (ws ++ ':' :: ws')))

theorem Key.length_lt {key : List Char} (h : Key key) (cs : List Char) :
    cs.length < (key ++ cs).length := by
  cases h
  simp only [List.length_append, List.length_cons]
  omega

/-- The texts of each part. -/
inductive Spells : Part → List Char → Prop where
  | scalar {cs : List Char} : Scalar cs → Spells .value cs
  | text {body : List Char} : TextBody body → Spells .value ('"' :: (body ++ ['"']))
  | noItems {ws : List Char} : Space ws → Spells .value ('[' :: (ws ++ [']']))
  | arr {ws cs : List Char} : Space ws → Spells .items cs → Spells .value ('[' :: (ws ++ cs))
  | noFields {ws : List Char} : Space ws → Spells .value ('\x7b' :: (ws ++ ['\x7d']))
  | obj {ws cs : List Char} : Space ws → Spells .fields cs → Spells .value ('\x7b' :: (ws ++ cs))
  | lastItem {v ws : List Char} : Spells .value v → Space ws → Spells .items (v ++ (ws ++ [']']))
  | item {v ws ws' cs : List Char} : Spells .value v → Space ws → Space ws' → Spells .items cs →
      Spells .items (v ++ (ws ++ ',' :: (ws' ++ cs)))
  | lastField {key v ws : List Char} : Key key → Spells .value v → Space ws →
      Spells .fields (key ++ (v ++ (ws ++ ['\x7d'])))
  | field {key v ws ws' cs : List Char} : Key key → Spells .value v → Space ws → Space ws' →
      Spells .fields cs → Spells .fields (key ++ (v ++ (ws ++ ',' :: (ws' ++ cs))))

/-- The texts that lead from the front of a part to a value in it. -/
inductive Leads : Part → List Char → Prop where
  | here : Leads .value []
  | arr {ws cs : List Char} : Space ws → Leads .items cs → Leads .value ('[' :: (ws ++ cs))
  | obj {ws cs : List Char} : Space ws → Leads .fields cs → Leads .value ('\x7b' :: (ws ++ cs))
  | thisItem {cs : List Char} : Leads .value cs → Leads .items cs
  | nextItem {v ws ws' cs : List Char} : Spells .value v → Space ws → Space ws' → Leads .items cs →
      Leads .items (v ++ (ws ++ ',' :: (ws' ++ cs)))
  | thisField {key cs : List Char} : Key key → Leads .value cs → Leads .fields (key ++ cs)
  | nextField {key v ws ws' cs : List Char} : Key key → Spells .value v → Space ws → Space ws' →
      Leads .fields cs → Leads .fields (key ++ (v ++ (ws ++ ',' :: (ws' ++ cs))))

/-! ### What follows a value -/

/-- How items and fields are read on behind a value: past a comma or up to the closing bracket. -/
def readBehind (close : Char) (next : Json → List Char → Except ReadError (Json × List Char))
    (done : Json → Json) (found : Json × List Char) : Except ReadError (Json × List Char) :=
  match skipSpace found.2 with
  | [] => .error .malformed
  | c :: rest =>
    if c = ',' then next found.1 (skipSpace rest)
    else if c = close then .ok (done found.1, rest)
    else .error .malformed

variable {limit : Option Nat} {fuel : Nat}

theorem readItems_succ (acc : List Json) (cs : List Char) :
    readItems limit (fuel + 1) acc cs = readValue limit fuel cs >>=
      readBehind ']' (fun v => readItems limit fuel (v :: acc))
        fun v => .arr (v :: acc).reverse := by
  rw [readItems]
  refine congrArg _ (funext fun found => ?_)
  unfold readBehind
  cases hrest : skipSpace found.2 with
  | nil => simp [hrest]
  | cons c rest =>
      by_cases hcomma : c = ','
      · simp [hrest, hcomma]
      · by_cases hclose : c = ']'
        · simp [hrest, hclose]
        · simp [hrest, hcomma, hclose]

/-- How fields are read behind the text of a key and the white space there. -/
def readPast (limit : Option Nat) (fuel : Nat) (acc : List (String × Json)) (name : String)
    (rest : List Char) : Except ReadError (Json × List Char) :=
  match rest with
  | ':' :: rest => readValue limit fuel (skipSpace rest) >>=
      readBehind '\x7d' (fun v => readFields limit fuel (OrderedMap.put name v acc))
        fun v => .obj (OrderedMap.put name v acc)
  | _ => .error .malformed

theorem readFields_succ (acc : List (String × Json)) (cs : List Char) :
    readFields limit (fuel + 1) acc ('"' :: cs) = readText cs >>= fun found =>
      readPast limit fuel acc found.1 (skipSpace found.2) := by
  rw [readFields]
  refine congrArg _ (funext fun found => ?_)
  unfold readPast
  cases hrest : skipSpace found.2 with
  | nil => simp [hrest]
  | cons c rest =>
      by_cases hcolon : c = ':'
      · subst hcolon
        simp only [hrest]
        refine congrArg _ (funext fun found => ?_)
        unfold readBehind
        cases skipSpace found.2 with
        | nil => rfl
        | cons c rest =>
            by_cases hcomma : c = ','
            · simp [hcomma]
            · by_cases hclose : c = '\x7d'
              · simp [hclose]
              · simp [hcomma, hclose]
      · simp [hrest, hcolon]

/-- Where no key begins, no field is read. -/
theorem readFields_malformed (h : ∀ body, cs ≠ '"' :: body) (acc : List (String × Json)) :
    readFields limit (fuel + 1) acc cs = .error .malformed := by
  rw [readFields]
  exact h

/-! ### What is read is spelled -/

/-- What the outcome of reading a part tells of a text. -/
abbrev Tells (part : Part) : List Char → Except ReadError (Json × List Char) → Prop :=
  Sound (Spells part) (Leads part) LongInteger

/-- Forms that begin with a value, behind which a bracket closes them or a part follows. -/
structure Continued (part : Part) (close : Char) (Front Before : List Char → Prop) : Prop where
  last : ∀ {v ws}, Spells .value v → Space ws → Front (v ++ (ws ++ [close]))
  next : ∀ {v ws ws' cs}, Spells .value v → Space ws → Space ws' → Spells part cs →
    Front (v ++ (ws ++ ',' :: (ws' ++ cs)))
  thisOne : ∀ {cs}, Leads .value cs → Before cs
  nextOne : ∀ {v ws ws' cs}, Spells .value v → Space ws → Space ws' → Leads part cs →
    Before (v ++ (ws ++ ',' :: (ws' ++ cs)))

theorem continued_items : Continued .items ']' (Spells .items) (Leads .items) :=
  ⟨.lastItem, .item, .thisItem, .nextItem⟩

theorem continued_fields {key : List Char} (h : Key key) :
    Continued .fields '\x7d' (fun cs => Spells .fields (key ++ cs))
      fun cs => Leads .fields (key ++ cs) :=
  ⟨.lastField h, .field h, .thisField h, .nextField h⟩

section
variable {part : Part} {close : Char} {Front Before : List Char → Prop}
  {next : Json → List Char → Except ReadError (Json × List Char)} {done : Json → Json}

theorem sound_readBehind (h : Continued part close Front Before)
    (hvalue : Tells .value cs (readValue (some digitLimit) fuel cs))
    (hnext : ∀ v cs, Tells part cs (next v cs)) :
    Sound Front Before LongInteger cs
      (readValue (some digitLimit) fuel cs >>= readBehind close next done) := by
  cases hread : readValue (some digitLimit) fuel cs with
  | error e =>
      rw [hread] at hvalue
      match e, hvalue with
      | .malformed, _ => trivial
      | .integer _, ⟨before, number, rest, hcs, hbefore, hlong⟩ =>
          exact ⟨before, number, rest, hcs, h.thisOne hbefore, hlong⟩
  | ok found =>
      obtain ⟨v, rest⟩ := found
      rw [hread] at hvalue
      obtain ⟨front, rfl, hfront⟩ := hvalue
      obtain ⟨ws, hrest, hws⟩ := exists_skipSpace rest
      rw [ok_bind, readBehind]
      split
      · trivial
      · rename_i c more hmore
        rw [hmore] at hrest
        split_ifs with hcomma hclose
        · subst hcomma
          obtain ⟨ws', hmore, hws'⟩ := exists_skipSpace more
          have hpassed : Sound Front Before LongInteger
              ((front ++ (ws ++ ',' :: ws')) ++ skipSpace more) (next v (skipSpace more)) := by
            refine (hnext v _).behind _ (fun cs hcs => ?_) fun cs hcs => ?_
            · simpa using h.next hfront hws hws' hcs
            · simpa using h.nextOne hfront hws hws' hcs
          have hcs : front ++ rest = (front ++ (ws ++ ',' :: ws')) ++ skipSpace more := by
            rw [hrest]
            simp [← hmore]
          rwa [hcs]
        · subst hclose
          exact ⟨front ++ (ws ++ [c]), by simp [hrest], h.last hfront hws⟩
        · trivial

end

theorem tells_value (hitems : ∀ acc cs, Tells .items cs (readItems (some digitLimit) fuel acc cs))
    (hfields : ∀ acc cs, Tells .fields cs (readFields (some digitLimit) fuel acc cs))
    (cs : List Char) : Tells .value cs (readValue (some digitLimit) (fuel + 1) cs) := by
  unfold readValue
  split
  · rename_i body
    cases hread : readText body with
    | error e =>
        cases readText_error hread
        trivial
    | ok found =>
        obtain ⟨text, rest⟩ := found
        obtain ⟨body, rfl, hbody⟩ := textBody_of_readText hread
        exact ⟨'"' :: (body ++ ['"']), by simp, .text hbody⟩
  · rename_i body
    obtain ⟨ws, hbody, hws⟩ := exists_skipSpace body
    split
    · rename_i rest hclose
      rw [hclose] at hbody
      exact ⟨'[' :: (ws ++ [']']), by simp [hbody], .noItems hws⟩
    · have hpassed := (hitems [] (skipSpace body)).behind ('[' :: ws) (fun _ => Spells.arr hws)
        fun _ => Leads.arr hws
      rwa [List.cons_append, ← hbody] at hpassed
  · rename_i body
    obtain ⟨ws, hbody, hws⟩ := exists_skipSpace body
    split
    · rename_i rest hclose
      rw [hclose] at hbody
      exact ⟨'\x7b' :: (ws ++ ['\x7d']), by simp [hbody], .noFields hws⟩
    · have hpassed := (hfields [] (skipSpace body)).behind ('\x7b' :: ws)
        (fun _ => Spells.obj hws) fun _ => Leads.obj hws
      rwa [List.cons_append, ← hbody] at hpassed
  · refine (sound_readScalar cs).behind [] (fun _ => .scalar) ?_
    rintro _ rfl
    exact .here

theorem tells_items (hvalue : ∀ cs, Tells .value cs (readValue (some digitLimit) fuel cs))
    (hitems : ∀ acc cs, Tells .items cs (readItems (some digitLimit) fuel acc cs))
    (acc : List Json) (cs : List Char) :
    Tells .items cs (readItems (some digitLimit) (fuel + 1) acc cs) := by
  rw [readItems_succ]
  exact sound_readBehind continued_items (hvalue cs) fun v cs => hitems (v :: acc) cs

theorem tells_fields (hvalue : ∀ cs, Tells .value cs (readValue (some digitLimit) fuel cs))
    (hfields : ∀ acc cs, Tells .fields cs (readFields (some digitLimit) fuel acc cs))
    (acc : List (String × Json)) (cs : List Char) :
    Tells .fields cs (readFields (some digitLimit) (fuel + 1) acc cs) := by
  by_cases hquote : ∃ body, cs = '"' :: body
  · obtain ⟨body, rfl⟩ := hquote
    rw [readFields_succ]
    cases hread : readText body with
    | error e =>
        cases readText_error hread
        trivial
    | ok found =>
        obtain ⟨name, rest⟩ := found
        obtain ⟨body, rfl, hbody⟩ := textBody_of_readText hread
        obtain ⟨ws, hrest, hws⟩ := exists_skipSpace rest
        rw [ok_bind, readPast.eq_def]
        split
        · rename_i more hcolon
          obtain ⟨ws', hmore, hws'⟩ := exists_skipSpace more
          have hkey : Key ('"' :: (body ++ '"' :: (ws ++ ':' :: ws'))) := .mk hbody hws hws'
          have hcs : '"' :: (body ++ '"' :: rest) =
              '"' :: (body ++ '"' :: (ws ++ ':' :: ws')) ++ skipSpace more := by
            rw [hrest, hcolon]
            simp [← hmore]
          rw [hcs]
          refine Sound.behind _ (fun _ => id) (fun _ => id) ?_
          exact sound_readBehind (continued_fields hkey) (hvalue _) fun v cs => hfields _ cs
        · trivial
  · rw [readFields_malformed fun body h => hquote ⟨body, h⟩]
    trivial

/-- **What is read of a text is spelled in it**, and where a long integer stops the reader, it is
the first thing in the text that does. -/
theorem tells (fuel : Nat) :
    (∀ cs, Tells .value cs (readValue (some digitLimit) fuel cs)) ∧
    (∀ acc cs, Tells .items cs (readItems (some digitLimit) fuel acc cs)) ∧
    (∀ acc cs, Tells .fields cs (readFields (some digitLimit) fuel acc cs)) := by
  induction fuel with
  | zero => exact ⟨fun _ => trivial, fun _ _ => trivial, fun _ _ => trivial⟩
  | succ fuel ih =>
      obtain ⟨hvalue, hitems, hfields⟩ := ih
      exact ⟨tells_value hitems hfields, tells_items hvalue hitems, tells_fields hvalue hfields⟩

/-! ### What is spelled is read -/

/-- A text that begins with no white space and no closing bracket. -/
def Opens (cs : List Char) : Prop :=
  ∃ c more, cs = c :: more ∧ isSpace c = false ∧ c ∉ [']', '\x7d']

theorem Opens.append (h : Opens cs) (more : List Char) : Opens (cs ++ more) := by
  obtain ⟨c, rest, rfl, hc⟩ := h
  exact ⟨c, rest ++ more, rfl, hc⟩

theorem Opens.skipSpace_append (h : Opens cs) (hws : Space ws) : skipSpace (ws ++ cs) = cs := by
  obtain ⟨c, rest, rfl, hc, -⟩ := h
  refine Json.skipSpace_append hws ?_
  rintro _ ⟨⟩
  exact hc

/-- A text that begins as a word or a number does. -/
def OpensScalar (cs : List Char) : Prop :=
  ∃ c more, cs = c :: more ∧ (isFigure c = true ∨ c ∈ ['n', 't', 'f', 'N', 'I', '-'])

theorem opensScalar_of_signed {Digits : List Char → Prop}
    (hhead : ∀ n, Digits n → ∃ c cs, n = c :: cs ∧ isFigure c = true) (h : Signed Digits cs) :
    OpensScalar cs := by
  cases h with
  | plain hn =>
      obtain ⟨c, cs, rfl, hc⟩ := hhead _ hn
      exact ⟨c, cs, rfl, .inl hc⟩
  | minus => exact ⟨'-', _, rfl, .inr (by simp)⟩

theorem opensScalar_of_scalar (h : Scalar cs) : OpensScalar cs := by
  cases h with
  | word hw =>
      have hwords : ∀ w ∈ words, ∃ c ∈ w.toList.head?, c ∈ ['n', 't', 'f', 'N', 'I', '-'] := by
        simp [words]
      obtain ⟨c, hc, hmem⟩ := hwords _ hw
      obtain ⟨more, hmore⟩ := List.head?_eq_some_iff.mp hc
      exact ⟨c, more, hmore, .inr hmem⟩
  | number hn => exact opensScalar_of_signed (fun _ => head_of_unsigned) hn

theorem opensScalar_of_long (h : LongInteger cs) : OpensScalar cs :=
  opensScalar_of_signed (fun _ hw => head_of_whole hw.whole) h

theorem OpensScalar.append (h : OpensScalar cs) (more : List Char) : OpensScalar (cs ++ more) := by
  obtain ⟨c, rest, rfl, hc⟩ := h
  exact ⟨c, rest ++ more, rfl, hc⟩

/-- The characters that a scalar does not begin with. -/
theorem notMem_of_opensScalar {c : Char} {more : List Char} (h : OpensScalar (c :: more)) :
    isSpace c = false ∧ c ∉ ['"', '[', ']', '\x7b', '\x7d'] := by
  have hmarks : ∀ c ∈ [' ', '\t', '\n', '\r'] ++ ['"', '[', ']', '\x7b', '\x7d'],
      ¬ (isFigure c = true ∨ c ∈ ['n', 't', 'f', 'N', 'I', '-']) :=
    List.all_iff_forall_prop.mp (by decide)
  obtain ⟨_, _, ⟨⟩, hc⟩ := h
  refine ⟨?_, fun hmem => hmarks c (List.mem_append_right _ hmem) hc⟩
  by_contra hspace
  rw [Bool.not_eq_false] at hspace
  exact hmarks c (List.mem_append_left _ (mem_of_isSpace hspace)) hc

theorem OpensScalar.opens (h : OpensScalar cs) : Opens cs := by
  obtain ⟨c, more, rfl, -⟩ := id h
  obtain ⟨hspace, hmem⟩ := notMem_of_opensScalar h
  exact ⟨c, more, rfl, hspace, fun hc => hmem (by simp at hc ⊢; tauto)⟩

theorem opens_of_spells {part : Part} (h : Spells part cs) : Opens cs := by
  induction h with
  | scalar h => exact (opensScalar_of_scalar h).opens
  | text | noItems | arr | noFields | obj => exact ⟨_, _, rfl, by decide, by decide⟩
  | lastItem _ _ ih => exact ih.append _
  | item _ _ _ _ ih => exact ih.append _
  | lastField hkey | field hkey => cases hkey; exact ⟨_, _, rfl, by decide, by decide⟩

theorem skipSpace_mark {c : Char} (hws : Space ws) (hc : isSpace c = false) (cs : List Char) :
    skipSpace (ws ++ c :: cs) = c :: cs := by
  refine skipSpace_append hws ?_
  rintro _ ⟨⟩
  exact hc

theorem ends_space {c : Char} (hws : Space ws) (hc : c ∈ [',', ']', '\x7d']) (cs : List Char) :
    Ends (ws ++ c :: cs) := by
  intro d hd
  cases ws with
  | nil =>
      cases hd
      exact .inr hc
  | cons w ws =>
      cases hd
      exact .inl (hws d List.mem_cons_self)

theorem readValue_scalar (h : OpensScalar cs) :
    readValue limit (fuel + 1) cs = readScalar limit cs := by
  obtain ⟨c, more, rfl, -⟩ := id h
  obtain ⟨-, hc⟩ := notMem_of_opensScalar h
  simp only [List.mem_cons, List.not_mem_nil, or_false, not_or] at hc
  obtain ⟨hquote, hbracket, -, hbrace, -⟩ := hc
  rw [readValue]
  · exact fun _ h => hquote (List.cons.inj h).1
  · exact fun _ h => hbracket (List.cons.inj h).1
  · exact fun _ h => hbrace (List.cons.inj h).1

/-- The value of a key is read, and the fields behind it. -/
theorem readFields_keyed {key : List Char} (h : Key key) (hcs : Opens cs)
    (acc : List (String × Json)) :
    ∃ name, readFields limit (fuel + 1) acc (key ++ cs) = readValue limit fuel cs >>=
      readBehind '\x7d' (fun v => readFields limit fuel (OrderedMap.put name v acc))
        fun v => .obj (OrderedMap.put name v acc) := by
  cases h with
  | @mk body ws ws' hbody hws hws' =>
      obtain ⟨name, hname⟩ := readText_textBody hbody (ws ++ ':' :: (ws' ++ cs))
      have hkey : '"' :: (body ++ '"' :: (ws ++ ':' :: ws')) ++ cs =
          '"' :: (body ++ '"' :: (ws ++ ':' :: (ws' ++ cs))) := by simp
      refine ⟨name, ?_⟩
      rw [hkey, readFields_succ, hname, ok_bind, skipSpace_mark hws (by decide), readPast,
        hcs.skipSpace_append hws']

/-- What reading a part leaves of a text, or why it fails, whatever was read before. -/
def Reads (fuel : Nat) : Part → List Char → Except ReadError (List Char) → Prop
  | .value, cs, outcome => (readValue (some digitLimit) fuel cs).map Prod.snd = outcome
  | .items, cs, outcome => ∀ acc, (readItems (some digitLimit) fuel acc cs).map Prod.snd = outcome
  | .fields, cs, outcome => ∀ acc, (readFields (some digitLimit) fuel acc cs).map Prod.snd = outcome

section
variable {outcome : Except ReadError (List Char)}

theorem reads_value : Reads fuel .value cs outcome ↔
    (readValue (some digitLimit) fuel cs).map Prod.snd = outcome := Iff.rfl

theorem reads_text {body : List Char} (h : TextBody body) (rest : List Char) :
    Reads (fuel + 1) .value ('"' :: (body ++ '"' :: rest)) (.ok rest) := by
  obtain ⟨text, htext⟩ := readText_textBody h rest
  rw [reads_value, readValue, htext]
  rfl

theorem reads_noItems (hws : Space ws) (rest : List Char) :
    Reads (fuel + 1) .value ('[' :: (ws ++ ']' :: rest)) (.ok rest) := by
  rw [reads_value, readValue, skipSpace_mark hws (by decide)]
  rfl

theorem reads_noFields (hws : Space ws) (rest : List Char) :
    Reads (fuel + 1) .value ('\x7b' :: (ws ++ '\x7d' :: rest)) (.ok rest) := by
  rw [reads_value, readValue, skipSpace_mark hws (by decide)]
  rfl

theorem reads_arr (hws : Space ws) (hcs : Opens cs) (h : Reads fuel .items cs outcome) :
    Reads (fuel + 1) .value ('[' :: (ws ++ cs)) outcome := by
  rw [reads_value, readValue, hcs.skipSpace_append hws, ← h []]
  obtain ⟨c, rest, rfl, -, hc⟩ := hcs
  have hclose : c ≠ ']' := fun he => hc (by simp [he])
  simp [hclose]

theorem reads_obj (hws : Space ws) (hcs : Opens cs) (h : Reads fuel .fields cs outcome) :
    Reads (fuel + 1) .value ('\x7b' :: (ws ++ cs)) outcome := by
  rw [reads_value, readValue, hcs.skipSpace_append hws, ← h []]
  obtain ⟨c, rest, rfl, -, hc⟩ := hcs
  have hclose : c ≠ '\x7d' := fun he => hc (by simp [he])
  simp [hclose]

variable {close : Char} {next : Json → List Char → Except ReadError (Json × List Char)}
  {done : Json → Json} {more : List Char}

theorem readBehind_error {e : ReadError} (h : Reads fuel .value cs (.error e)) :
    (readValue (some digitLimit) fuel cs >>= readBehind close next done).map Prod.snd = .error e :=
  map_eq_error.mpr (bind_eq_error.mpr (.inl (map_eq_error.mp h)))

theorem readBehind_last (h : Reads fuel .value cs (.ok rest))
    (hrest : skipSpace rest = close :: more) (hclose : close ≠ ',') :
    (readValue (some digitLimit) fuel cs >>= readBehind close next done).map Prod.snd =
      .ok more := by
  obtain ⟨found, hread, rfl⟩ := map_eq_ok.mp h
  rw [hread, ok_bind, readBehind, hrest]
  simp [hclose]
  rfl

theorem readBehind_next (h : Reads fuel .value cs (.ok rest)) (hrest : skipSpace rest = ',' :: more)
    (hnext : ∀ v, (next v (skipSpace more)).map Prod.snd = outcome) :
    (readValue (some digitLimit) fuel cs >>= readBehind close next done).map Prod.snd =
      outcome := by
  obtain ⟨found, hread, rfl⟩ := map_eq_ok.mp h
  rw [hread, ok_bind, readBehind, hrest]
  exact hnext found.1

variable {v : List Char}

theorem reads_lastItem (hws : Space ws)
    (hv : Reads fuel .value (v ++ (ws ++ ']' :: rest)) (.ok (ws ++ ']' :: rest))) :
    Reads (fuel + 1) .items (v ++ (ws ++ ']' :: rest)) (.ok rest) := by
  intro acc
  rw [readItems_succ]
  exact readBehind_last hv (skipSpace_mark hws (by decide) rest) (by decide)

theorem reads_nextItem (hws : Space ws) (hws' : Space ws') (hcs : Opens cs)
    (hv : Reads fuel .value (v ++ (ws ++ ',' :: (ws' ++ cs))) (.ok (ws ++ ',' :: (ws' ++ cs))))
    (h : Reads fuel .items cs outcome) :
    Reads (fuel + 1) .items (v ++ (ws ++ ',' :: (ws' ++ cs))) outcome := by
  intro acc
  rw [readItems_succ]
  refine readBehind_next hv (skipSpace_mark hws (by decide) _) fun v => ?_
  rw [hcs.skipSpace_append hws']
  exact h _

variable {key : List Char} (hkey : Key key) (hopens : Opens v)
include hkey hopens

theorem reads_lastField (hws : Space ws)
    (hv : Reads fuel .value (v ++ (ws ++ '\x7d' :: rest)) (.ok (ws ++ '\x7d' :: rest))) :
    Reads (fuel + 1) .fields (key ++ (v ++ (ws ++ '\x7d' :: rest))) (.ok rest) := by
  intro acc
  obtain ⟨name, hname⟩ := readFields_keyed hkey (hopens.append (ws ++ '\x7d' :: rest)) acc
  rw [hname]
  exact readBehind_last hv (skipSpace_mark hws (by decide) rest) (by decide)

theorem reads_nextField (hws : Space ws) (hws' : Space ws') (hcs : Opens cs)
    (hv : Reads fuel .value (v ++ (ws ++ ',' :: (ws' ++ cs))) (.ok (ws ++ ',' :: (ws' ++ cs))))
    (h : Reads fuel .fields cs outcome) :
    Reads (fuel + 1) .fields (key ++ (v ++ (ws ++ ',' :: (ws' ++ cs)))) outcome := by
  intro acc
  obtain ⟨name, hname⟩ := readFields_keyed hkey (hopens.append (ws ++ ',' :: (ws' ++ cs))) acc
  rw [hname]
  refine readBehind_next hv (skipSpace_mark hws (by decide) _) fun v => ?_
  rw [hcs.skipSpace_append hws']
  exact h _

end

/-- The fuel that is enough for a part of a text of some length. -/
def Part.enough : Part → Nat → Nat
  | .value, length => 2 * length + 1
  | _, length => 2 * length + 2

/-- Fuel that is enough for a part is, less one, enough for what stands in it: a part of a shorter
text, or the value that the part begins with. -/
theorem Part.spend {part : Part} {length fuel : Nat} (h : part.enough length ≤ fuel) :
    ∃ k, fuel = k + 1 ∧ (∀ {inner : Part} {l : Nat}, l < length → inner.enough l ≤ k) ∧
      (part ≠ .value → Part.value.enough length ≤ k) := by
  have hpart : 2 * length + 1 ≤ part.enough length ∧
      (part ≠ .value → part.enough length = 2 * length + 2) := by
    cases part <;> simp [enough]
  obtain ⟨k, rfl⟩ : ∃ k, fuel = k + 1 := Nat.exists_eq_add_one.mpr (by omega)
  refine ⟨k, rfl, fun {inner l} hl => ?_, fun hvalue => ?_⟩
  · cases inner
    all_goals simp only [enough]; omega
  · have hlarge := hpart.2 hvalue
    simp only [enough]
    omega

theorem length_lt_mark (v ws : List Char) (c : Char) (ws' cs : List Char) :
    cs.length < (v ++ (ws ++ c :: (ws' ++ cs))).length := by
  simp only [List.length_append, List.length_cons]
  omega

/-- **What is spelled is read**, where it ends. -/
theorem reads_spells {part : Part} {front : List Char} (h : Spells part front) (rest : List Char)
    (hrest : part = .value → Ends rest) (fuel : Nat)
    (hfuel : part.enough (front ++ rest).length ≤ fuel) :
    Reads fuel part (front ++ rest) (.ok rest) := by
  induction h generalizing fuel rest with
  | scalar h =>
      obtain ⟨fuel, rfl, -⟩ := Part.spend hfuel
      obtain ⟨v, hv⟩ := readScalar_scalar h (hrest rfl)
      rw [reads_value, readValue_scalar ((opensScalar_of_scalar h).append rest), hv]
      rfl
  | text hbody =>
      obtain ⟨fuel, rfl, -⟩ := Part.spend hfuel
      simpa using reads_text hbody rest
  | noItems hws =>
      obtain ⟨fuel, rfl, -⟩ := Part.spend hfuel
      simpa using reads_noItems hws rest
  | @arr ws cs hws hitems ih =>
      rw [List.cons_append, List.append_assoc] at hfuel ⊢
      obtain ⟨fuel, rfl, hless, -⟩ := Part.spend hfuel
      have hin := ih rest nofun fuel (hless (length_lt_mark [] [] '[' ws _))
      exact reads_arr hws ((opens_of_spells hitems).append rest) hin
  | noFields hws =>
      obtain ⟨fuel, rfl, -⟩ := Part.spend hfuel
      simpa using reads_noFields hws rest
  | @obj ws cs hws hfields ih =>
      rw [List.cons_append, List.append_assoc] at hfuel ⊢
      obtain ⟨fuel, rfl, hless, -⟩ := Part.spend hfuel
      have hin := ih rest nofun fuel (hless (length_lt_mark [] [] '\x7b' ws _))
      exact reads_obj hws ((opens_of_spells hfields).append rest) hin
  | @lastItem v ws hv hws ih =>
      have hcs : v ++ (ws ++ [']']) ++ rest = v ++ (ws ++ ']' :: rest) := by simp
      rw [hcs] at hfuel ⊢
      obtain ⟨fuel, rfl, -, hsame⟩ := Part.spend hfuel
      have hvalue := ih _ (fun _ => ends_space hws (by simp) rest) fuel (hsame nofun)
      exact reads_lastItem hws hvalue
  | @item v ws ws' cs hv hws hws' hitems ihv ih =>
      have hcs : v ++ (ws ++ ',' :: (ws' ++ cs)) ++ rest =
          v ++ (ws ++ ',' :: (ws' ++ (cs ++ rest))) := by simp
      rw [hcs] at hfuel ⊢
      obtain ⟨fuel, rfl, hless, hsame⟩ := Part.spend hfuel
      have hvalue := ihv _ (fun _ => ends_space hws (by simp) _) fuel (hsame nofun)
      have hnext := ih rest nofun fuel (hless (length_lt_mark v ws ',' ws' _))
      exact reads_nextItem hws hws' ((opens_of_spells hitems).append rest) hvalue hnext
  | @lastField key v ws hkey hv hws ih =>
      have hcs : key ++ (v ++ (ws ++ ['\x7d'])) ++ rest = key ++ (v ++ (ws ++ '\x7d' :: rest)) := by
        simp
      rw [hcs] at hfuel ⊢
      obtain ⟨fuel, rfl, hless, -⟩ := Part.spend hfuel
      have hvalue := ih _ (fun _ => ends_space hws (by simp) rest) fuel
        (hless (hkey.length_lt _))
      exact reads_lastField hkey (opens_of_spells hv) hws hvalue
  | @field key v ws ws' cs hkey hv hws hws' hfields ihv ih =>
      have hcs : key ++ (v ++ (ws ++ ',' :: (ws' ++ cs))) ++ rest =
          key ++ (v ++ (ws ++ ',' :: (ws' ++ (cs ++ rest)))) := by simp
      rw [hcs] at hfuel ⊢
      obtain ⟨fuel, rfl, hless, -⟩ := Part.spend hfuel
      have hvalue := ihv _ (fun _ => ends_space hws (by simp) _) fuel (hless (hkey.length_lt _))
      have hnext := ih rest nofun fuel
        (hless ((length_lt_mark v ws ',' ws' _).trans (hkey.length_lt _)))
      exact reads_nextField hkey (opens_of_spells hv) hws hws'
        ((opens_of_spells hfields).append rest) hvalue hnext

theorem opens_of_leads {part : Part} {before : List Char} (h : Leads part before)
    (hcs : Opens cs) : Opens (before ++ cs) := by
  induction h with
  | here => exact hcs
  | arr | obj => exact ⟨_, _, rfl, by decide, by decide⟩
  | thisItem _ ih => exact ih
  | nextItem hv =>
      rw [List.append_assoc]
      exact (opens_of_spells hv).append _
  | thisField hkey | nextField hkey => cases hkey; exact ⟨_, _, rfl, by decide, by decide⟩

/-- **An integer that is too long stops the reader** where it is met. -/
theorem reads_leads {part : Part} {before number : List Char} (h : Leads part before)
    (hnumber : LongInteger number) (hrest : ¬ Continues rest) (fuel : Nat)
    (hfuel : part.enough (before ++ (number ++ rest)).length ≤ fuel) :
    ∃ cause, Reads fuel part (before ++ (number ++ rest)) (.error (.integer cause)) := by
  have hopens : OpensScalar (number ++ rest) := (opensScalar_of_long hnumber).append rest
  induction h generalizing fuel with
  | here =>
      obtain ⟨fuel, rfl, -⟩ := Part.spend hfuel
      obtain ⟨cause, hcause⟩ := readScalar_long hnumber hrest
      refine ⟨cause, ?_⟩
      rw [reads_value, List.nil_append, readValue_scalar hopens, hcause]
      rfl
  | @arr ws cs hws hitems ih =>
      rw [List.cons_append, List.append_assoc] at hfuel ⊢
      obtain ⟨fuel, rfl, hless, -⟩ := Part.spend hfuel
      obtain ⟨cause, hcause⟩ := ih fuel (hless (length_lt_mark [] [] '[' ws _))
      exact ⟨cause, reads_arr hws (opens_of_leads hitems hopens.opens) hcause⟩
  | @obj ws cs hws hfields ih =>
      rw [List.cons_append, List.append_assoc] at hfuel ⊢
      obtain ⟨fuel, rfl, hless, -⟩ := Part.spend hfuel
      obtain ⟨cause, hcause⟩ := ih fuel (hless (length_lt_mark [] [] '\x7b' ws _))
      exact ⟨cause, reads_obj hws (opens_of_leads hfields hopens.opens) hcause⟩
  | thisItem _ ih =>
      obtain ⟨fuel, rfl, -, hsame⟩ := Part.spend hfuel
      obtain ⟨cause, hcause⟩ := ih fuel (hsame nofun)
      refine ⟨cause, fun acc => ?_⟩
      rw [readItems_succ]
      exact readBehind_error hcause
  | @nextItem v ws ws' cs hv hws hws' hitems ih =>
      have hcs : v ++ (ws ++ ',' :: (ws' ++ cs)) ++ (number ++ rest) =
          v ++ (ws ++ ',' :: (ws' ++ (cs ++ (number ++ rest)))) := by simp
      rw [hcs] at hfuel ⊢
      obtain ⟨fuel, rfl, hless, hsame⟩ := Part.spend hfuel
      obtain ⟨cause, hcause⟩ := ih fuel (hless (length_lt_mark v ws ',' ws' _))
      have hvalue := reads_spells hv _ (fun _ => ends_space hws (by simp) _) fuel (hsame nofun)
      exact ⟨cause, reads_nextItem hws hws' (opens_of_leads hitems hopens.opens) hvalue hcause⟩
  | @thisField key cs hkey hleads ih =>
      rw [List.append_assoc] at hfuel ⊢
      obtain ⟨fuel, rfl, hless, -⟩ := Part.spend hfuel
      obtain ⟨cause, hcause⟩ := ih fuel (hless (hkey.length_lt _))
      refine ⟨cause, fun acc => ?_⟩
      obtain ⟨name, hname⟩ := readFields_keyed hkey (opens_of_leads hleads hopens.opens) acc
      rw [hname]
      exact readBehind_error hcause
  | @nextField key v ws ws' cs hkey hv hws hws' hfields ih =>
      have hcs : key ++ (v ++ (ws ++ ',' :: (ws' ++ cs))) ++ (number ++ rest) =
          key ++ (v ++ (ws ++ ',' :: (ws' ++ (cs ++ (number ++ rest))))) := by simp
      rw [hcs] at hfuel ⊢
      obtain ⟨fuel, rfl, hless, -⟩ := Part.spend hfuel
      obtain ⟨cause, hcause⟩ := ih fuel
        (hless ((length_lt_mark v ws ',' ws' _).trans (hkey.length_lt _)))
      have hvalue := reads_spells hv _ (fun _ => ends_space hws (by simp) _) fuel
        (hless (hkey.length_lt _))
      exact ⟨cause, reads_nextField hkey (opens_of_spells hv) hws hws'
        (opens_of_leads hfields hopens.opens) hvalue hcause⟩

/-! ### Documents -/

/-- A text that spells one value, with white space around it or none. -/
def Document (text : String) : Prop :=
  ∃ ws front ws', text.toList = ws ++ (front ++ ws') ∧ Space ws ∧ Spells .value front ∧ Space ws'

/-- A text whose first fault is an integer that is too long: all that stands before it could be the
front of a document. -/
def MeetsLong (text : String) : Prop :=
  ∃ ws before number rest, text.toList = ws ++ (before ++ (number ++ rest)) ∧ Space ws ∧
    Leads .value before ∧ LongInteger number ∧ ¬ Continues rest

theorem ends_of_space (h : Space ws) : Ends ws :=
  fun c hc => .inl (h c (List.mem_of_mem_head? hc))

theorem skipSpace_eq_nil_iff : skipSpace cs = [] ↔ Space cs :=
  List.dropWhile_eq_nil_iff

/-- The fuel of a text is enough for what stands behind its white space. -/
theorem enough_skipSpace (cs : List Char) :
    Part.enough .value (skipSpace cs).length ≤ 2 * cs.length + 1 := by
  have hlength : (skipSpace cs).length ≤ cs.length := List.length_dropWhile_le _ _
  exact Nat.succ_le_succ (Nat.mul_le_mul_left 2 hlength)

/-- **A text is read as a value if and only if it spells one.** -/
theorem read_ok_iff {text : String} : (∃ v, read text = .ok v) ↔ Document text := by
  obtain ⟨ws, htext, hws⟩ := exists_skipSpace text.toList
  constructor
  · rintro ⟨v, h⟩
    obtain ⟨⟨v, rest⟩, hread, h⟩ := bind_eq_ok.mp h
    have hvalue := (tells (2 * text.toList.length + 1)).1 (skipSpace text.toList)
    rw [hread] at hvalue
    obtain ⟨front, hcs, hfront⟩ := hvalue
    rw [hcs] at htext
    refine ⟨ws, front, rest, htext, hws, hfront, skipSpace_eq_nil_iff.mp ?_⟩
    dsimp only at h
    split_ifs at h with hempty
    exact List.isEmpty_iff.mp hempty
  · rintro ⟨ws, front, ws', hspelled, hws, hfront, hws'⟩
    have hskip : skipSpace text.toList = front ++ ws' := by
      rw [hspelled]
      exact ((opens_of_spells hfront).append ws').skipSpace_append hws
    obtain ⟨⟨v, rest⟩, hread, rfl⟩ := map_eq_ok.mp <|
      reads_spells hfront ws' (fun _ => ends_of_space hws') (2 * text.toList.length + 1)
        (hskip ▸ enough_skipSpace text.toList)
    refine ⟨v, ?_⟩
    rw [read]
    dsimp only
    rw [hskip, hread, ok_bind, skipSpace_eq_nil_iff.mpr hws']
    rfl

/-- **A text is refused for an integer if and only if it meets a long one**. -/
theorem read_integer_iff {text : String} :
    (∃ cause, read text = .error (.integer cause)) ↔ MeetsLong text := by
  obtain ⟨ws, htext, hws⟩ := exists_skipSpace text.toList
  constructor
  · rintro ⟨cause, h⟩
    rcases bind_eq_error.mp h with hread | ⟨found, -, h⟩
    · have hvalue := (tells (2 * text.toList.length + 1)).1 (skipSpace text.toList)
      rw [hread] at hvalue
      obtain ⟨before, number, rest, hcs, hbefore, hlong⟩ := hvalue
      rw [hcs] at htext
      exact ⟨ws, before, number, rest, htext, hws, hbefore, hlong⟩
    · dsimp only at h
      split_ifs at h
      cases h
  · rintro ⟨ws, before, number, rest, hspelled, hws, hbefore, hnumber, hrest⟩
    have hskip : skipSpace text.toList = before ++ (number ++ rest) := by
      rw [hspelled]
      exact (opens_of_leads hbefore
        ((opensScalar_of_long hnumber).append rest).opens).skipSpace_append hws
    obtain ⟨cause, hcause⟩ := reads_leads hbefore hnumber hrest (2 * text.toList.length + 1)
      (hskip ▸ enough_skipSpace text.toList)
    refine ⟨cause, bind_eq_error.mpr (.inl ?_)⟩
    rw [hskip]
    exact map_eq_error.mp hcause

end EnumHelpers.Json
