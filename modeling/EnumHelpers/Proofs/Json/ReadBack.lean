import EnumHelpers.Json.Reader
import EnumHelpers.Json.Writer
import EnumHelpers.Proofs.OrderedMap
import EnumHelpers.Proofs.Outcome
import Mathlib.Tactic.IntervalCases
import Mathlib.Tactic.SplitIfs

/-!
# Proofs — JSON documents read back

A document without numbers, whose objects hold no key twice, is read back from what is written of
it, with or without indentation (`read_write`).

A value is read back from the front of a text, whatever stands behind it.  The reader goes one level
down, or one item on, for every unit of its fuel, and every level and every item is written with at
least one character; so the length of what is written is fuel enough (`ReadsBack`).
-/

namespace EnumHelpers.Json
open Number OrderedMap

/-! ### White space -/

theorem skipSpace_lineBreak (indent : Option Nat) (cs : List Char) :
    skipSpace ((lineBreak indent).toList ++ cs) = skipSpace cs := by
  cases indent with
  | none => rfl
  | some k =>
      rw [lineBreak, String.toList_ofList, List.cons_append, skipSpace, skipSpace,
        List.dropWhile_cons_of_pos (by decide)]
      induction k with
      | zero => rfl
      | succ k ih => rw [List.replicate_succ, List.cons_append,
          List.dropWhile_cons_of_pos (by decide), ih]

/-- A text that does not begin with white space. -/
def Solid (cs : List Char) : Prop := ∀ rest, skipSpace (cs ++ rest) = cs ++ rest

theorem solid_cons {c : Char} (h : (c == ' ' || c == '\t' || c == '\n' || c == '\r') = false)
    (cs : List Char) : Solid (c :: cs) := by
  intro rest
  rw [List.cons_append]
  exact List.dropWhile_cons_of_neg (Bool.eq_false_iff.mp h)

/-! ### Texts -/

/-- Four hexadecimal digits spell the control character that they were made of. -/
theorem fourHex?_hexDigits {n : Nat} (hn : n < 0x20) (rest : List Char) :
    fourHex? (Text.hexDigits 4 n ++ rest) = some (n, rest) := by
  interval_cases n <;> rfl

theorem unitChar_of_lt {c : Char} (hc : c.toNat < 0x20) (rest : List Char) :
    unitChar c.toNat rest = (c, rest) := by
  rw [unitChar, if_neg (by omega), if_neg (by omega), Char.ofNat_toNat]

/-- A character is written as an escape of one letter, as one of four digits, or as it is. -/
theorem writtenChar_cases (c : Char) :
    (∃ e, e ≠ 'u' ∧ shortEscape? e = some c ∧ writtenChar c = ['\\', e]) ∨
      (c.toNat < 0x20 ∧ writtenChar c = '\\' :: 'u' :: Text.hexDigits 4 c.toNat) ∨
      (c ≠ '"' ∧ ¬ (c = '\\' ∨ c.toNat < 0x20) ∧ writtenChar c = [c]) := by
  rw [writtenChar]
  split_ifs with hmark hn hr ht hb hf hcontrol
  · rcases hmark with rfl | rfl
    · exact .inl ⟨'"', by decide, rfl, rfl⟩
    · exact .inl ⟨'\\', by decide, rfl, rfl⟩
  · exact .inl ⟨'n', by decide, hn ▸ rfl, rfl⟩
  · exact .inl ⟨'r', by decide, hr ▸ rfl, rfl⟩
  · exact .inl ⟨'t', by decide, ht ▸ rfl, rfl⟩
  · exact .inl ⟨'b', by decide, hb ▸ rfl, rfl⟩
  · exact .inl ⟨'f', by decide, hf ▸ rfl, rfl⟩
  · exact .inr (.inl ⟨hcontrol, rfl⟩)
  · rw [not_or] at hmark
    exact .inr (.inr ⟨hmark.1, not_or.mpr ⟨hmark.2, hcontrol⟩, rfl⟩)

/-- One written character is read back. -/
theorem readChars_writtenChar (fuel : Nat) (acc : List Char) (c : Char) (cs : List Char) :
    readChars (fuel + 1) acc (writtenChar c ++ cs) = readChars fuel (c :: acc) cs := by
  rcases writtenChar_cases c with ⟨e, hu, he, hc⟩ | ⟨hcontrol, hc⟩ | ⟨hquote, hplain, hc⟩
  · rw [hc, List.cons_append, List.singleton_append, readChars, he]
    exact hu
  · rw [hc, List.cons_append, List.cons_append, readChars, fourHex?_hexDigits hcontrol]
    dsimp only
    rw [unitChar_of_lt hcontrol]
  · have hescape : c ≠ '\\' := (not_or.mp hplain).1
    rw [hc, List.singleton_append, readChars, if_neg hplain]
    · exact hquote
    · exact fun _ h => absurd h hescape
    · exact fun _ _ h => absurd h hescape

/-- Written characters are read back up to the closing quote. -/
theorem readChars_flatMap {fuel : Nat} {cs : List Char} (h : cs.length < fuel) (acc : List Char)
    (rest : List Char) :
    readChars fuel acc (cs.flatMap writtenChar ++ '"' :: rest) = .ok (acc.reverse ++ cs, rest) := by
  induction cs generalizing fuel acc with
  | nil =>
      obtain ⟨fuel, rfl⟩ := Nat.exists_eq_succ_of_ne_zero (Nat.ne_of_gt h)
      rw [List.flatMap_nil, List.nil_append, readChars, List.append_nil]
  | cons c cs ih =>
      obtain ⟨fuel, rfl⟩ := Nat.exists_eq_succ_of_ne_zero (Nat.ne_of_gt (Nat.zero_lt_of_lt h))
      rw [List.flatMap_cons, List.append_assoc, readChars_writtenChar,
        ih (Nat.lt_of_succ_lt_succ h), List.reverse_cons, List.append_assoc, List.singleton_append]

theorem length_le_flatMap_writtenChar (cs : List Char) :
    cs.length ≤ (cs.flatMap writtenChar).length := by
  have hone : ∀ c, 1 ≤ (writtenChar c).length := by
    intro c
    rcases writtenChar_cases c with ⟨e, -, -, hc⟩ | ⟨-, hc⟩ | ⟨-, -, hc⟩
    all_goals simp [hc]
  induction cs with
  | nil => exact Nat.le_refl 0
  | cons c cs ih =>
      rw [List.flatMap_cons, List.length_append, List.length_cons, Nat.add_comm]
      exact Nat.add_le_add (hone c) ih

theorem toList_writtenText (s : String) :
    (writtenText s).toList = '"' :: (s.toList.flatMap writtenChar ++ ['"']) := by
  rw [writtenText, String.toList_ofList, List.cons_append]

/-- **A written text is read back** from behind its opening quote. -/
theorem readText_written (s : String) (rest : List Char) :
    readText (s.toList.flatMap writtenChar ++ '"' :: rest) = .ok (s, rest) := by
  have hlength := length_le_flatMap_writtenChar s.toList
  rw [readText, readChars_flatMap (by rw [List.length_append]; omega), ok_bind, List.reverse_nil,
    List.nil_append]
  dsimp only
  rw [String.ofList_toList]

/-! ### Written values -/

variable {limit : Option Nat} {indent : Option Nat}

/-- The indentation of what stands in brackets. -/
def inner (indent : Option Nat) : Option Nat := indent.map (· + 2)

theorem toList_write_null : (write indent .null).toList = ['n', 'u', 'l', 'l'] := by
  rw [write]
  rfl

theorem toList_write_bool (b : Bool) : (write indent (.bool b)).toList =
    if b then ['t', 'r', 'u', 'e'] else ['f', 'a', 'l', 's', 'e'] := by
  rw [write]
  cases b <;> rfl

theorem toList_write_str (s : String) : (write indent (.str s)).toList =
    '"' :: (s.toList.flatMap writtenChar ++ ['"']) := by
  rw [write, toList_writtenText]

/-- What is written of items from the first one on, with the closing bracket. -/
def itemsText (indent : Option Nat) (v : Json) (rest : List Json) : List Char :=
  (write (inner indent) v).toList ++
    ((writeItems (inner indent) rest).toList ++ ((lineBreak indent).toList ++ [']']))

theorem toList_write_arr (v : Json) (rest : List Json) : (write indent (.arr (v :: rest))).toList =
    '[' :: ((lineBreak (inner indent)).toList ++ itemsText indent v rest) := by
  rw [write]
  simp only [String.toList_append, List.append_assoc]
  rfl

theorem toList_writeItems_cons (v : Json) (rest : List Json) :
    (writeItems (inner indent) (v :: rest)).toList ++ ((lineBreak indent).toList ++ [']']) =
      ',' :: ((lineBreak (inner indent)).toList ++ itemsText indent v rest) := by
  rw [writeItems]
  simp only [String.toList_append, List.append_assoc]
  rfl

/-- What is written of fields from the first one on, with the closing brace. -/
def fieldsText (indent : Option Nat) (key : String) (v : Json) (rest : List (String × Json)) :
    List Char :=
  '"' :: (key.toList.flatMap writtenChar ++ '"' :: ':' :: ' ' ::
    ((write (inner indent) v).toList ++
      ((writeFields (inner indent) rest).toList ++ ((lineBreak indent).toList ++ ['\x7d']))))

theorem toList_write_obj (key : String) (v : Json) (rest : List (String × Json)) :
    (write indent (.obj ((key, v) :: rest))).toList =
      '\x7b' :: ((lineBreak (inner indent)).toList ++ fieldsText indent key v rest) := by
  rw [write]
  simp only [String.toList_append, List.append_assoc, toList_writtenText, List.cons_append,
    List.nil_append]
  rfl

theorem toList_writeFields_cons (key : String) (v : Json) (rest : List (String × Json)) :
    (writeFields (inner indent) ((key, v) :: rest)).toList ++
        ((lineBreak indent).toList ++ ['\x7d']) =
      ',' :: ((lineBreak (inner indent)).toList ++ fieldsText indent key v rest) := by
  rw [writeFields]
  simp only [String.toList_append, List.append_assoc, toList_writtenText, List.cons_append,
    List.nil_append]
  rfl

/-! ### Reading values -/

/-- A value without numbers, whose objects hold no key twice. -/
inductive Numberless : Json → Prop where
  | null : Numberless .null
  | bool (b : Bool) : Numberless (.bool b)
  | str (s : String) : Numberless (.str s)
  | arr {items : List Json} (values : ∀ v ∈ items, Numberless v) : Numberless (.arr items)
  | obj {fields : List (String × Json)} (distinct : (keys fields).Nodup)
      (values : ∀ entry ∈ fields, Numberless entry.2) : Numberless (.obj fields)

/-- A value is read back from the front of a text, with fuel for each character that is written of
it; and what is written of it begins with no white space and no closing bracket. -/
structure ReadsBack (limit : Option Nat) (v : Json) : Prop where
  front : ∀ indent, ∃ c cs, (write indent v).toList = c :: cs ∧ c ≠ ']' ∧
    (c == ' ' || c == '\t' || c == '\n' || c == '\r') = false
  read : ∀ (indent : Option Nat) (fuel : Nat) (rest : List Char),
    (write indent v).toList.length ≤ fuel →
      readValue limit fuel ((write indent v).toList ++ rest) = .ok (v, rest)

theorem ReadsBack.solid {v : Json} (h : ReadsBack limit v) (indent : Option Nat) :
    Solid (write indent v).toList := by
  obtain ⟨c, cs, hwrite, -, hspace⟩ := h.front indent
  exact hwrite ▸ solid_cons hspace cs

theorem exists_succ {length fuel : Nat} (h : length + 1 ≤ fuel) :
    ∃ k, fuel = k + 1 ∧ length ≤ k :=
  ⟨fuel - 1, by omega, by omega⟩

theorem readsBack_null : ReadsBack limit .null where
  front _ := ⟨_, _, toList_write_null, by decide, by decide⟩
  read indent fuel rest hfuel := by
    rw [toList_write_null] at hfuel ⊢
    obtain ⟨fuel, rfl, -⟩ := exists_succ hfuel
    rfl

theorem readsBack_bool (b : Bool) : ReadsBack limit (.bool b) where
  front indent := by
    rw [toList_write_bool]
    cases b <;> exact ⟨_, _, rfl, by decide, by decide⟩
  read indent fuel rest hfuel := by
    rw [toList_write_bool] at hfuel ⊢
    cases b <;>
    · obtain ⟨fuel, rfl, -⟩ := exists_succ hfuel
      rfl

theorem readsBack_str (s : String) : ReadsBack limit (.str s) where
  front _ := ⟨_, _, toList_write_str s, by decide, by decide⟩
  read indent fuel rest hfuel := by
    rw [toList_write_str] at hfuel ⊢
    obtain ⟨fuel, rfl, -⟩ := exists_succ hfuel
    rw [List.cons_append, List.append_assoc, List.singleton_append, readValue, readText_written,
      ok_bind]

theorem itemsText_cons (v w : Json) (items : List Json) : itemsText indent v (w :: items) =
    (write (inner indent) v).toList ++
      ',' :: ((lineBreak (inner indent)).toList ++ itemsText indent w items) := by
  rw [itemsText, toList_writeItems_cons]

theorem skipSpace_itemsText {v : Json} (h : ReadsBack limit v) (items : List Json)
    (rest : List Char) : skipSpace (itemsText indent v items ++ rest) =
      itemsText indent v items ++ rest := by
  rw [itemsText, List.append_assoc, h.solid]

/-- Items are read back one after another. -/
theorem readItems_itemsText {v : Json} {items : List Json} (hv : ReadsBack limit v)
    (hitems : ∀ w ∈ items, ReadsBack limit w) {fuel : Nat}
    (hfuel : (itemsText indent v items).length ≤ fuel) (acc : List Json) (rest : List Char) :
    readItems limit fuel acc (itemsText indent v items ++ rest) =
      .ok (.arr (acc.reverse ++ v :: items), rest) := by
  induction items generalizing v fuel acc with
  | nil =>
      have hwrite : itemsText indent v [] =
          (write (inner indent) v).toList ++ ((lineBreak indent).toList ++ [']']) := by
        rw [itemsText, writeItems, String.toList_empty, List.nil_append]
      rw [hwrite] at hfuel ⊢
      rw [List.length_append, List.length_append, List.length_singleton] at hfuel
      obtain ⟨fuel, rfl⟩ := Nat.exists_eq_add_one.mpr (show 0 < fuel by omega)
      rw [List.append_assoc, readItems, hv.read _ fuel _ (by omega), ok_bind]
      dsimp only
      rw [List.append_assoc, skipSpace_lineBreak, List.singleton_append, List.reverse_cons]
      rfl
  | cons w items ih =>
      rw [List.forall_mem_cons] at hitems
      rw [itemsText_cons] at hfuel ⊢
      rw [List.length_append, List.length_cons, List.length_append] at hfuel
      obtain ⟨fuel, rfl⟩ := Nat.exists_eq_add_one.mpr (show 0 < fuel by omega)
      rw [List.append_assoc, readItems, hv.read _ fuel _ (by omega), ok_bind, List.cons_append]
      dsimp only
      rw [show ∀ cs, skipSpace (',' :: cs) = ',' :: cs from fun _ => rfl, List.append_assoc]
      change readItems limit fuel (v :: acc) (skipSpace _) = _
      rw [skipSpace_lineBreak, skipSpace_itemsText hitems.1,
        ih hitems.1 hitems.2 (by omega), List.reverse_cons, List.append_assoc,
        List.singleton_append]

theorem readsBack_arr {items : List Json} (h : ∀ v ∈ items, ReadsBack limit v) :
    ReadsBack limit (.arr items) := by
  cases items with
  | nil =>
      have hwrite : ∀ indent, (write indent (.arr [])).toList = ['[', ']'] := by
        intro indent
        rw [write]
        rfl
      refine ⟨fun indent => ⟨_, _, hwrite indent, by decide, by decide⟩, ?_⟩
      intro indent fuel rest hfuel
      rw [hwrite] at hfuel ⊢
      obtain ⟨fuel, rfl, -⟩ := exists_succ hfuel
      rfl
  | cons v items =>
      rw [List.forall_mem_cons] at h
      refine ⟨fun indent => ⟨_, _, toList_write_arr v items, by decide, by decide⟩, ?_⟩
      intro indent fuel rest hfuel
      rw [toList_write_arr] at hfuel ⊢
      obtain ⟨fuel, rfl, hlength⟩ := exists_succ hfuel
      rw [List.length_append] at hlength
      obtain ⟨c, cs, hfront, hclosing, -⟩ := h.1.front (inner indent)
      rw [List.cons_append, readValue, List.append_assoc, skipSpace_lineBreak,
        skipSpace_itemsText h.1]
      split
      · rename_i hclose
        rw [itemsText, hfront] at hclose
        cases hclose
        exact absurd rfl hclosing
      · exact readItems_itemsText h.1 h.2 (by omega) [] rest

/-! ### Reading objects -/

theorem fieldsText_nil (key : String) (v : Json) : fieldsText indent key v [] =
    '"' :: (key.toList.flatMap writtenChar ++ '"' :: ':' :: ' ' ::
      ((write (inner indent) v).toList ++ ((lineBreak indent).toList ++ ['\x7d']))) := by
  rw [fieldsText, writeFields, String.toList_empty, List.nil_append]

theorem fieldsText_cons (key key' : String) (v w : Json) (rest : List (String × Json)) :
    fieldsText indent key v ((key', w) :: rest) =
      '"' :: (key.toList.flatMap writtenChar ++ '"' :: ':' :: ' ' ::
        ((write (inner indent) v).toList ++
          ',' :: ((lineBreak (inner indent)).toList ++ fieldsText indent key' w rest))) := by
  rw [fieldsText, toList_writeFields_cons]

/-- How the fields of an object are read on behind one of them. -/
def readOn (limit : Option Nat) (fuel : Nat) (acc : List (String × Json)) :
    List Char → Except ReadError (Json × List Char)
  | ',' :: rest => readFields limit fuel acc (skipSpace rest)
  | '\x7d' :: rest => .ok (.obj acc, rest)
  | _ => .error .malformed

/-- The value behind a key and a colon is read back. -/
theorem readFields_key {v : Json} (hv : ReadsBack limit v) {fuel : Nat}
    (hfuel : (write indent v).toList.length ≤ fuel) (key : String)
    (acc : List (String × Json)) (after : List Char) :
    readFields limit (fuel + 1) acc ('"' :: (key.toList.flatMap writtenChar ++
        '"' :: ':' :: ' ' :: ((write indent v).toList ++ after))) =
      readOn limit fuel (put key v acc) (skipSpace after) := by
  have hcolon : ∀ cs, skipSpace (':' :: ' ' :: cs) = ':' :: ' ' :: cs := fun _ => rfl
  have hblank : ∀ cs, skipSpace (' ' :: cs) = skipSpace cs := fun _ => rfl
  rw [readFields, readText_written, ok_bind]
  simp only [hcolon, hblank, hv.solid indent after, hv.read indent fuel after hfuel, ok_bind]
  rfl

/-- Fields with new and distinct keys are read back one after another. -/
theorem readFields_fieldsText {key : String} {v : Json} {fields : List (String × Json)}
    (hv : ReadsBack limit v) (hfields : ∀ entry ∈ fields, ReadsBack limit entry.2) {fuel : Nat}
    (hfuel : (fieldsText indent key v fields).length ≤ fuel) (acc : List (String × Json))
    (hkeys : (keys (acc ++ (key, v) :: fields)).Nodup) (rest : List Char) :
    readFields limit fuel acc (fieldsText indent key v fields ++ rest) =
      .ok (.obj (acc ++ (key, v) :: fields), rest) := by
  induction fields generalizing key v fuel acc with
  | nil =>
      rw [fieldsText_nil] at hfuel ⊢
      simp only [List.length_cons, List.length_append] at hfuel
      obtain ⟨fuel, rfl⟩ := Nat.exists_eq_add_one.mpr (show 0 < fuel by omega)
      simp only [List.cons_append, List.append_assoc]
      rw [readFields_key hv (by omega), skipSpace_lineBreak, put_of_nodup hkeys]
      rfl
  | cons entry fields ih =>
      obtain ⟨key', w⟩ := entry
      rw [List.forall_mem_cons] at hfields
      obtain ⟨hw, hfields⟩ : ReadsBack limit w ∧ _ := hfields
      rw [fieldsText_cons] at hfuel ⊢
      simp only [List.length_cons, List.length_append] at hfuel
      obtain ⟨fuel, rfl⟩ := Nat.exists_eq_add_one.mpr (show 0 < fuel by omega)
      simp only [List.cons_append, List.append_assoc]
      rw [readFields_key hv (by omega), put_of_nodup hkeys]
      change readFields limit fuel _ (skipSpace _) = _
      rw [skipSpace_lineBreak]
      change readFields limit fuel _ (fieldsText indent key' w fields ++ rest) = _
      rw [List.append_cons] at hkeys
      rw [ih hw hfields (by omega) _ hkeys, List.append_assoc, List.singleton_append]

theorem readsBack_obj {fields : List (String × Json)} (hkeys : (keys fields).Nodup)
    (h : ∀ entry ∈ fields, ReadsBack limit entry.2) : ReadsBack limit (.obj fields) := by
  cases fields with
  | nil =>
      have hwrite : ∀ indent, (write indent (.obj [])).toList = ['\x7b', '\x7d'] := by
        intro indent
        rw [write]
        rfl
      refine ⟨fun indent => ⟨_, _, hwrite indent, by decide, by decide⟩, ?_⟩
      intro indent fuel rest hfuel
      rw [hwrite] at hfuel ⊢
      obtain ⟨fuel, rfl, -⟩ := exists_succ hfuel
      rfl
  | cons entry fields =>
      obtain ⟨key, v⟩ := entry
      rw [List.forall_mem_cons] at h
      refine ⟨fun indent => ⟨_, _, toList_write_obj key v fields, by decide, by decide⟩, ?_⟩
      intro indent fuel rest hfuel
      rw [toList_write_obj] at hfuel ⊢
      obtain ⟨fuel, rfl, hlength⟩ := exists_succ hfuel
      rw [List.length_append] at hlength
      rw [List.cons_append, readValue, List.append_assoc, skipSpace_lineBreak]
      -- a quote follows, and no closing brace
      exact readFields_fieldsText h.1 h.2 (Nat.le_of_add_left_le hlength) [] hkeys rest

/-! ### Documents -/

theorem Numberless.readsBack {v : Json} (h : Numberless v) : ReadsBack limit v := by
  induction h with
  | null => exact readsBack_null
  | bool b => exact readsBack_bool b
  | str s => exact readsBack_str s
  | arr _ ih => exact readsBack_arr ih
  | obj distinct _ ih => exact readsBack_obj distinct ih

/-- **A document is read back.**  A document without numbers, whose objects hold no key twice, is
what its written form spells, with or without indentation. -/
theorem read_write {v : Json} (h : Numberless v) (indent : Option Nat) (limit : Option Nat) :
    read (v.write indent) limit = .ok v := by
  have hv : ReadsBack limit v := h.readsBack
  have hread := hv.read indent (2 * (v.write indent).toList.length + 1) [] (by omega)
  have hspace := hv.solid indent []
  rw [List.append_nil] at hread hspace
  rw [read, hspace, hread, ok_bind]
  rfl

end EnumHelpers.Json
