import EnumHelpers.Proofs.Json.Documents
import EnumHelpers.Proofs.Json.ReadBack
import EnumHelpers.Proofs.OrderedMap

/-!
# Proofs — reading with a limit of digits

A limit of digits makes a difference in one way only: where it does, an integer is refused
(`Within`).  What a text spells is therefore that which is read of it without a limit, and with one
it is read as that or refused for an integer.

* `read_of_unlimited`: the two ways in which a text that spells a value is read.
* `read_integerObject`: what is read of an object with an integer in it.
* `nodup_of_read`: the keys of an object that is read are distinct.
-/

namespace EnumHelpers.Json
open Number OrderedMap

variable {α β : Type} {limit : Option Nat} {fuel : Nat} {cs rest : List Char}

/-! ### Outcomes with a limit and without -/

/-- An outcome that is the other one, unless an integer is refused. -/
def Within (x y : Except ReadError α) : Prop := (∃ cause, x = .error (.integer cause)) ∨ x = y

theorem Within.refl (x : Except ReadError α) : Within x x := .inr rfl

theorem Within.bind {x y : Except ReadError α} {f g : α → Except ReadError β} (h : Within x y)
    (hf : ∀ a, Within (f a) (g a)) : Within (x >>= f) (y >>= g) := by
  rcases h with ⟨cause, rfl⟩ | rfl
  · exact .inl ⟨cause, rfl⟩
  · cases x with
    | error e => exact .inr rfl
    | ok a => exact hf a

theorem within_readNumber (negative : Bool) (cs : List Char) :
    Within (readNumber limit negative cs) (readNumber none negative cs) := by
  unfold readNumber
  split
  · exact .refl _
  · split
    · exact .refl _
    · exact .refl _
    · -- digits are counted only where neither a fraction nor an exponent stands behind them
      split
      · exact .inl ⟨_, rfl⟩
      · exact .refl _

theorem within_readScalar (cs : List Char) :
    Within (readScalar limit cs) (readScalar none cs) := by
  unfold readScalar
  split
  · exact .refl _
  · exact .refl _
  · exact .refl _
  · split
    · exact .refl _
    · exact .refl _
    · exact .refl _
    · split
      · exact within_readNumber true _
      · exact within_readNumber false _

theorem within_readBehind {next next' : Json → List Char → Except ReadError (Json × List Char)}
    (h : ∀ v cs, Within (next v cs) (next' v cs)) (close : Char) (done : Json → Json)
    (found : Json × List Char) :
    Within (readBehind close next done found) (readBehind close next' done found) := by
  unfold readBehind
  split
  · exact .refl _
  · split
    · exact h _ _
    · exact .refl _

theorem within_readPast (hvalue : ∀ cs, Within (readValue limit fuel cs) (readValue none fuel cs))
    (hfields : ∀ acc cs, Within (readFields limit fuel acc cs) (readFields none fuel acc cs))
    (acc : List (String × Json)) (name : String) (rest : List Char) :
    Within (readPast limit fuel acc name rest) (readPast none fuel acc name rest) := by
  unfold readPast
  split
  · exact (hvalue _).bind (within_readBehind (fun _ => hfields _) _ _)
  · exact .refl _

/-- **The readers with a limit keep within those without one**, by induction on the fuel. -/
theorem within_readers (fuel : Nat) :
    (∀ cs, Within (readValue limit fuel cs) (readValue none fuel cs)) ∧
    (∀ acc cs, Within (readItems limit fuel acc cs) (readItems none fuel acc cs)) ∧
    (∀ acc cs, Within (readFields limit fuel acc cs) (readFields none fuel acc cs)) := by
  induction fuel with
  | zero => exact ⟨fun _ => .refl _, fun _ _ => .refl _, fun _ _ => .refl _⟩
  | succ fuel ih =>
      obtain ⟨hvalue, hitems, hfields⟩ := ih
      refine ⟨fun cs => ?_, fun acc cs => ?_, fun acc cs => ?_⟩
      · unfold readValue
        split
        · exact .refl _
        · split
          · exact .refl _
          · exact hitems _ _
        · split
          · exact .refl _
          · exact hfields _ _
        · exact within_readScalar _
      · rw [readItems_succ, readItems_succ]
        exact (hvalue cs).bind (within_readBehind (fun _ => hitems _) _ _)
      · by_cases hquote : ∃ body, cs = '"' :: body
        · obtain ⟨body, rfl⟩ := hquote
          rw [readFields_succ, readFields_succ]
          exact (Within.refl _).bind fun found => within_readPast hvalue hfields _ _ _
        · have hnone : ∀ body, cs ≠ '"' :: body := fun body h => hquote ⟨body, h⟩
          rw [readFields_malformed hnone, readFields_malformed hnone]
          exact .refl _

theorem within_read (limit : Option Nat) (text : String) :
    Within (read text limit) (read text none) :=
  ((within_readers _).1 _).bind fun _ => .refl _

/-- **What a text spells is read of it, or an integer is refused.** -/
theorem read_of_unlimited {text : String} {v : Json} (h : read text none = .ok v) :
    (¬ MeetsLong text ∧ read text = .ok v) ∨
      (MeetsLong text ∧ ∃ cause, read text = .error (.integer cause)) := by
  rcases within_read (some digitLimit) text with hrefused | hread
  · exact .inr ⟨read_integer_iff.mp hrefused, hrefused⟩
  · rw [h] at hread
    refine .inl ⟨fun hlong => ?_, hread⟩
    obtain ⟨cause, hrefused⟩ := read_integer_iff.mpr hlong
    rw [hread] at hrefused
    cases hrefused

/-! ### An object with an integer -/

/-- A key with its colon, and the figures of an integer up to the closing brace. -/
def integerField (key : String) (figures : List Char) : List Char :=
  '"' :: (key.toList.flatMap writtenChar ++ '"' :: ':' :: (figures ++ ['\x7d']))

/-- The text of an object with an integer at a key. -/
def integerObject (key : String) (figures : List Char) : String :=
  String.ofList ('\x7b' :: integerField key figures)

/-- What is read of the object: the integer, or its refusal. -/
def integerAt (limit : Option Nat) (key : String) (figures : List Char) : Except ReadError Json :=
  if limit.any (· < figures.length) then .error (.integer (.tooManyDigits figures.length))
  else .ok (.obj [(key, .int (ofDigits 10 0 (figures.filterMap (digitIn? 10)) : Nat))])

variable {figures : List Char}

theorem readFields_integerField (h : Whole figures) (limit : Option Nat) (key : String)
    (fuel : Nat) :
    readFields limit (fuel + 2) [] (integerField key figures) =
      (integerAt limit key figures).map fun v => (v, []) := by
  have hcolon : ∀ rest, skipSpace (':' :: rest) = ':' :: rest := fun _ => rfl
  have hnumber : readNumber limit false (figures ++ ['\x7d']) = _ :=
    readNumber_whole h (.inr (noFigure_cons (by decide))) rfl rfl limit false
  obtain ⟨c, cs, rfl, hc⟩ := head_of_whole h
  have hopens : OpensScalar (c :: cs ++ ['\x7d']) := ⟨c, _, rfl, .inl hc⟩
  have hspace : skipSpace (c :: cs ++ ['\x7d']) = c :: cs ++ ['\x7d'] :=
    hopens.opens.skipSpace_append (show Space [] from nofun)
  rw [integerField, readFields_succ, readText_written, ok_bind, hcolon, readPast, hspace,
    readValue_scalar hopens, List.cons_append, readScalar_figure hc, ← List.cons_append, hnumber,
    integerAt]
  split
  · rfl
  · rfl

/-- The integer is read as the value of the key, unless it has too many digits. -/
theorem read_integerObject (h : Whole figures) (limit : Option Nat) (key : String) :
    read (integerObject key figures) limit = integerAt limit key figures := by
  have hfields := readFields_integerField h limit key (2 * (integerField key figures).length)
  have hvalue : ∀ fuel, readValue limit (fuel + 1) ('\x7b' :: integerField key figures) =
      readFields limit fuel [] (integerField key figures) := by
    intro fuel
    rw [integerField, readValue]
    rfl
  have hspace : skipSpace ('\x7b' :: integerField key figures) =
      '\x7b' :: integerField key figures := rfl
  have hfuel : 2 * ((integerField key figures).length + 1) + 1 =
      2 * (integerField key figures).length + 2 + 1 := rfl
  rw [read, integerObject, String.toList_ofList, hspace, List.length_cons]
  dsimp only
  rw [hfuel, hvalue, hfields]
  cases integerAt limit key figures with
  | error e => rfl
  | ok v => rfl

/-! ### The keys of an object -/

/-- A value whose keys are distinct, if it is an object. -/
def Keyed (v : Json) : Prop := ∀ fields, v = .obj fields → (keys fields).Nodup

/-- What is read behind a value is that which is done with it, or what is read next. -/
theorem of_readBehind {P : Json → Prop} {close : Char}
    {next : Json → List Char → Except ReadError (Json × List Char)} {done : Json → Json}
    {found : Json × List Char} {v : Json} (h : readBehind close next done found = .ok (v, rest))
    (hdone : P (done found.1))
    (hnext : ∀ cs v rest, next found.1 cs = .ok (v, rest) → P v) : P v := by
  unfold readBehind at h
  split at h
  · cases h
  · split_ifs at h
    · exact hnext _ _ _ h
    · cases h
      exact hdone

theorem keyed_of_readItems {acc : List Json} {v : Json}
    (h : readItems limit fuel acc cs = .ok (v, rest)) : Keyed v := by
  induction fuel generalizing acc cs v rest with
  | zero => cases h
  | succ fuel ih =>
      rw [readItems_succ] at h
      obtain ⟨found, -, h⟩ := bind_eq_ok.mp h
      refine of_readBehind h ?_ fun _ _ _ => ih
      rintro _ ⟨⟩

theorem keyed_of_readFields {acc : List (String × Json)} {v : Json}
    (h : readFields limit fuel acc cs = .ok (v, rest)) (hacc : (keys acc).Nodup) : Keyed v := by
  induction fuel generalizing acc cs v rest with
  | zero => cases h
  | succ fuel ih =>
      by_cases hquote : ∃ body, cs = '"' :: body
      · obtain ⟨body, rfl⟩ := hquote
        rw [readFields_succ] at h
        obtain ⟨⟨name, behind⟩, -, h⟩ := bind_eq_ok.mp h
        unfold readPast at h
        split at h
        · obtain ⟨found, -, h⟩ := bind_eq_ok.mp h
          refine of_readBehind h ?_ fun _ _ _ h => ih h (nodup_keys_put hacc)
          rintro _ ⟨⟩
          exact nodup_keys_put hacc
        · cases h
      · rw [readFields_malformed fun body h => hquote ⟨body, h⟩] at h
        cases h

theorem keyed_of_readNumber {negative : Bool} {v : Json}
    (h : readNumber limit negative cs = .ok (v, rest)) : Keyed v := by
  unfold readNumber at h
  split at h
  · cases h
  · split at h
    · cases h
      rintro _ ⟨⟩
    · cases h
      rintro _ ⟨⟩
    · split at h
      · cases h
      · cases h
        rintro _ ⟨⟩

theorem keyed_of_readScalar {v : Json} (h : readScalar limit cs = .ok (v, rest)) : Keyed v := by
  unfold readScalar at h
  split at h
  iterate 3
    · cases h
      rintro _ ⟨⟩
  · split at h
    iterate 3
      · cases h
        rintro _ ⟨⟩
    · split at h
      · exact keyed_of_readNumber h
      · exact keyed_of_readNumber h

theorem keyed_of_readValue {v : Json} (h : readValue limit fuel cs = .ok (v, rest)) : Keyed v := by
  unfold readValue at h
  split at h
  · cases h
  · split at h
    · obtain ⟨found, -, h⟩ := bind_eq_ok.mp h
      cases h
      rintro _ ⟨⟩
    · split at h
      · cases h
        rintro _ ⟨⟩
      · exact keyed_of_readItems h
    · split at h
      · cases h
        rintro _ ⟨⟩
        exact List.nodup_nil
      · exact keyed_of_readFields h List.nodup_nil
    · exact keyed_of_readScalar h

/-- **The keys of an object that is read are distinct.** -/
theorem nodup_of_read {text : String} {fields : OrderedMap String Json}
    (h : read text limit = .ok (.obj fields)) : (keys fields).Nodup := by
  obtain ⟨⟨v, rest⟩, hread, h⟩ := bind_eq_ok.mp h
  dsimp only at h
  split_ifs at h
  cases h
  exact keyed_of_readValue hread fields rfl

end EnumHelpers.Json
