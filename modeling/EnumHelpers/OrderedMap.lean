/-!
# Ordered maps

Finite maps that remember the order in which their keys were first put in.  Putting a value at a
key that is there replaces the value and leaves the key in its place.

* `get?_put`: a map reads at a key what was last put there, and elsewhere what it read before.
* `keys_put`: a key that is new goes to the end.
-/

namespace EnumHelpers

/-- A map as the list of its entries. -/
abbrev OrderedMap (α β : Type) := List (α × β)

namespace OrderedMap

variable {α β : Type} [DecidableEq α]

/-- The value at a key. -/
def get? (key : α) : OrderedMap α β → Option β
  | [] => none
  | (k, v) :: rest => if k = key then some v else get? key rest

/-- The map with a value put at a key. -/
def put (key : α) (value : β) : OrderedMap α β → OrderedMap α β
  | [] => [(key, value)]
  | (k, v) :: rest => if k = key then (k, value) :: rest else (k, v) :: put key value rest

/-- The keys, in the order in which they were first put in. -/
def keys (m : OrderedMap α β) : List α := m.map Prod.fst

/-- Whether a key has a value. -/
def has (key : α) (m : OrderedMap α β) : Bool := (get? key m).isSome

theorem get?_put (key key' : α) (value : β) (m : OrderedMap α β) :
    get? key' (put key value m) = if key = key' then some value else get? key' m := by
  induction m with
  | nil => simp [put, get?]
  | cons entry rest ih =>
    obtain ⟨k, v⟩ := entry
    by_cases h : k = key
    · subst h
      by_cases h' : k = key' <;> simp [put, get?, h']
    · by_cases h' : k = key'
      · subst h'
        simp [put, get?, h, Ne.symm h]
      · simp [put, get?, h, h', ih]

theorem keys_put (key : α) (value : β) (m : OrderedMap α β) :
    keys (put key value m) = if key ∈ keys m then keys m else keys m ++ [key] := by
  induction m with
  | nil => simp [put, keys]
  | cons entry rest ih =>
    obtain ⟨k, v⟩ := entry
    by_cases h : k = key
    · simp [put, keys, h]
    · simp only [put, h, if_false, keys, List.map_cons, List.mem_cons, Ne.symm h, false_or] at ih ⊢
      rw [ih]
      by_cases hm : key ∈ List.map Prod.fst rest <;> simp [hm]

end OrderedMap
end EnumHelpers
