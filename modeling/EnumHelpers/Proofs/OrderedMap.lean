import EnumHelpers.OrderedMap
import Mathlib.Data.List.Induction
import Mathlib.Data.List.Nodup

/-!
# Proofs — ordered maps

A map *filled* from a list is the one that the items of the list make when they are put in one
after another, so that of several items with one key the last one counts and the first one gives
the place.

* `get?_filled`: at a key, the value of the last item with the key.
* `keys_filled`, `keys_filled_nodup`: the keys in the order of their first items, none of them
  twice.
* `mem_iff_get?`: with distinct keys, the entries are what the map reads.
-/

namespace EnumHelpers.OrderedMap

variable {α β ε : Type} [DecidableEq α]

theorem get?_eq_none_iff {k : α} {m : OrderedMap α β} : get? k m = none ↔ k ∉ keys m := by
  induction m with
  | nil => simp [get?, keys]
  | cons entry rest ih =>
      obtain ⟨k', v⟩ := entry
      by_cases h : k' = k
      · simp [get?, keys, h]
      · simp only [get?, h, if_false, ih, keys, List.map_cons, List.mem_cons, Ne.symm h, false_or]

theorem has_iff_mem_keys {k : α} {m : OrderedMap α β} : has k m = true ↔ k ∈ keys m := by
  rw [has, ← not_iff_not, ← get?_eq_none_iff, Bool.not_eq_true, Option.isSome_eq_false_iff,
    Option.isNone_iff_eq_none]

theorem mem_keys_put {k k' : α} {v : β} {m : OrderedMap α β} :
    k' ∈ keys (put k v m) ↔ k' = k ∨ k' ∈ keys m := by
  rw [keys_put]
  split
  · rename_i hk
    exact ⟨.inr, fun h => h.elim (· ▸ hk) id⟩
  · rw [List.mem_append, List.mem_singleton, or_comm]

theorem mem_of_get? {k : α} {v : β} {m : OrderedMap α β} (h : get? k m = some v) :
    (k, v) ∈ m := by
  induction m with
  | nil => simp [get?] at h
  | cons entry rest ih =>
      obtain ⟨k', v'⟩ := entry
      by_cases e : k' = k
      · simp only [get?, e, if_true, Option.some.injEq] at h
        simp [e, h]
      · simp only [get?, e, if_false] at h
        exact List.mem_cons_of_mem _ (ih h)

/-- An entry of a map with a value put in is the one put in, or was there. -/
theorem mem_put {k : α} {v : β} {m : OrderedMap α β} {entry : α × β} (h : entry ∈ put k v m) :
    entry = (k, v) ∨ entry ∈ m := by
  induction m with
  | nil => exact .inl (List.mem_singleton.mp h)
  | cons first rest ih =>
      obtain ⟨k', v'⟩ := first
      rw [put] at h
      split at h
      · rename_i e
        subst e
        exact (List.mem_cons.mp h).imp_right (List.mem_cons_of_mem _)
      · rcases List.mem_cons.mp h with h | h
        · exact .inr (h ▸ List.mem_cons_self)
        · exact (ih h).imp_right (List.mem_cons_of_mem _)

/-- A value put at a new key goes to the end. -/
theorem put_of_notMem {k : α} {v : β} {m : OrderedMap α β} (h : k ∉ keys m) :
    put k v m = m ++ [(k, v)] := by
  induction m with
  | nil => rfl
  | cons entry rest ih =>
      obtain ⟨k', v'⟩ := entry
      simp only [keys, List.map_cons, List.mem_cons, not_or] at h
      rw [put, if_neg (Ne.symm h.1), ih h.2, List.cons_append]

theorem put_of_nodup {k : α} {v : β} {m rest : OrderedMap α β}
    (h : (keys (m ++ (k, v) :: rest)).Nodup) : put k v m = m ++ [(k, v)] := by
  rw [keys, List.map_append, List.map_cons] at h
  exact put_of_notMem fun hk => (List.nodup_append.mp h).2.2 k hk k List.mem_cons_self rfl

/-- With distinct keys, every entry is what the map reads at its key. -/
theorem get?_of_mem {k : α} {v : β} {m : OrderedMap α β} (hn : (keys m).Nodup)
    (h : (k, v) ∈ m) : get? k m = some v := by
  induction m with
  | nil => simp at h
  | cons entry rest ih =>
      obtain ⟨k', v'⟩ := entry
      simp only [keys, List.map_cons, List.nodup_cons] at hn
      rcases List.mem_cons.mp h with e | h
      · cases e; simp [get?]
      · have hk : k ∈ rest.map Prod.fst := List.mem_map.mpr ⟨_, h, rfl⟩
        have hne : k' ≠ k := fun e => hn.1 (e ▸ hk)
        simp only [get?, hne, if_false]
        exact ih hn.2 h

theorem mem_iff_get? {k : α} {v : β} {m : OrderedMap α β} (hn : (keys m).Nodup) :
    (k, v) ∈ m ↔ get? k m = some v :=
  ⟨get?_of_mem hn, mem_of_get?⟩

/-- With distinct keys, it does not matter from which end a map is read. -/
theorem get?_eq_find?_reverse {k : α} {m : OrderedMap α β} (hn : (keys m).Nodup) :
    get? k m = (m.reverse.find? fun e => e.1 = k).map Prod.snd := by
  cases hfind : m.reverse.find? fun e => e.1 = k with
  | none =>
      refine get?_eq_none_iff.mpr fun hk => ?_
      obtain ⟨e, he, rfl⟩ := List.mem_map.mp hk
      exact List.find?_eq_none.mp hfind e (List.mem_reverse.mpr he) (decide_eq_true rfl)
  | some e =>
      obtain rfl : e.1 = k := by simpa using List.find?_some hfind
      exact get?_of_mem hn (List.mem_reverse.mp (List.mem_of_find?_eq_some hfind))

/-- Two maps with distinct keys that read alike have the same keys. -/
theorem perm_keys {m m' : OrderedMap α β} (hn : (keys m).Nodup) (hn' : (keys m').Nodup)
    (h : ∀ k, get? k m = get? k m') : (keys m).Perm (keys m') := by
  refine (List.perm_ext_iff_of_nodup hn hn').mpr fun k => ?_
  rw [← not_iff_not, ← get?_eq_none_iff, ← get?_eq_none_iff, h]

theorem nodup_keys_put {k : α} {v : β} {m : OrderedMap α β} (h : (keys m).Nodup) :
    (keys (put k v m)).Nodup := by
  rw [keys_put]
  split
  · exact h
  · rename_i hk
    refine List.nodup_append.mpr ⟨h, List.nodup_singleton k, ?_⟩
    rintro a ha b hb rfl
    exact hk (List.mem_singleton.mp hb ▸ ha)

/-! ### Maps filled in order -/

/-- The map that the items of a list make, put in one after another. -/
def filled (key : ε → α) (value : ε → β) (items : List ε) : OrderedMap α β :=
  items.foldl (fun m e => put (key e) (value e) m) []

variable {key : ε → α} {value : ε → β}

theorem get?_foldl_put (k : α) (m : OrderedMap α β) (items : List ε) :
    get? k (items.foldl (fun m e => put (key e) (value e) m) m) =
      (((items.reverse.find? fun e => key e = k).map value).or (get? k m)) := by
  induction items generalizing m with
  | nil => simp
  | cons e rest ih =>
      rw [List.foldl_cons, ih, get?_put, List.reverse_cons, List.find?_append]
      by_cases h : key e = k
      · cases rest.reverse.find? (fun e => key e = k) <;> simp [h]
      · simp [h]

/-- A filled map reads at a key the value of the last item with the key. -/
theorem get?_filled (k : α) (items : List ε) :
    get? k (filled key value items) =
      (items.reverse.find? fun e => key e = k).map value := by
  rw [filled, get?_foldl_put, get?, Option.or_none]

theorem filled_concat (items : List ε) (e : ε) :
    filled key value (items ++ [e]) = put (key e) (value e) (filled key value items) := by
  rw [filled, List.foldl_append]
  rfl

theorem eraseDups_concat (ks : List α) (k : α) :
    (ks ++ [k]).eraseDups = if k ∈ ks then ks.eraseDups else ks.eraseDups ++ [k] := by
  rw [List.eraseDups_append, List.removeAll]
  by_cases h : k ∈ ks <;> simp [h, List.eraseDups_cons]

/-- The keys of a filled map stand in the order of the first items with them. -/
theorem keys_filled (items : List ε) :
    keys (filled key value items) = (items.map key).eraseDups := by
  induction items using List.reverseRecOn with
  | nil => rfl
  | append_singleton items e ih =>
      rw [filled_concat, keys_put, ih, List.map_append, List.map_singleton, eraseDups_concat]
      simp only [List.mem_eraseDups]

theorem nodup_keys_foldl_put {m : OrderedMap α β} (h : (keys m).Nodup) (items : List ε) :
    (keys (items.foldl (fun m e => put (key e) (value e) m) m)).Nodup := by
  induction items generalizing m with
  | nil => exact h
  | cons e rest ih => exact ih (nodup_keys_put h)

theorem keys_filled_nodup (items : List ε) : (keys (filled key value items)).Nodup :=
  nodup_keys_foldl_put (m := []) List.nodup_nil items

/-- An entry of a filled map comes from the last item with its key. -/
theorem mem_filled_iff {k : α} {v : β} {items : List ε} :
    (k, v) ∈ filled key value items ↔
      ∃ e, (items.reverse.find? fun e => key e = k) = some e ∧ value e = v := by
  rw [mem_iff_get? (keys_filled_nodup items), get?_filled, Option.map_eq_some_iff]

end EnumHelpers.OrderedMap
