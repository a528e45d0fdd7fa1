import EnumHelpers.File.Tree
import EnumHelpers.Proofs.OrderedMap

/-!
# Proofs — a tree of files

The way to a path goes through directories only, so that from a directory a name leads to the entry
with the name (`find_join`).  It starts from the working directory, unless the path has a root
(`find_of_root`).

A text that is written to a path stands there, and nothing else in the tree is changed
(`find_of_write`).  The path leads to the same steps as before, since a directory is never what is
written over.
-/

namespace EnumHelpers.File.Tree
open OrderedMap

variable {tree tree' : Tree} {path : Path} {here rest steps reached : List String}
  {node found : Node}

/-! ### Ways -/

theorem walk_nil_eq_ok_iff : walk tree here [] = .ok (reached, found) ↔
    reached = here.reverse ∧ nodeAt? tree here.reverse = some found := by
  rw [walk]
  split
  · rename_i hnode
    rw [hnode]
    constructor
    · rintro ⟨⟩
      exact ⟨rfl, rfl⟩
    · rintro ⟨rfl, ⟨⟩⟩
      rfl
  · rename_i hnode
    rw [hnode]
    exact ⟨nofun, nofun⟩

/-- A way goes on from a directory only. -/
theorem walk_cons_eq_ok_iff {step : String} :
    walk tree here (step :: rest) = .ok (reached, found) ↔
      nodeAt? tree here.reverse = some .directory ∧
        walk tree (onward here step) rest = .ok (reached, found) := by
  rw [walk.eq_def]
  dsimp only
  split
  · rename_i hnode
    exact (and_iff_right hnode).symm
  · rename_i hnode hdir
    rw [hdir]
    exact ⟨nofun, fun h => absurd (Option.some.inj h.1) hnode⟩
  · rename_i hnode
    rw [hnode]
    exact ⟨nofun, nofun⟩

theorem nodeAt?_of_walk (h : walk tree here rest = .ok (reached, found)) :
    nodeAt? tree reached = some found := by
  induction rest generalizing here with
  | nil =>
      obtain ⟨rfl, hnode⟩ := walk_nil_eq_ok_iff.mp h
      exact hnode
  | cons step rest ih => exact ih (walk_cons_eq_ok_iff.mp h).2

/-- From a directory a step down leads to what stands there. -/
theorem walk_concat_eq_ok_iff (h : walk tree here rest = .ok (steps, .directory)) {name : String}
    (hname : name ≠ "..") : walk tree here (rest ++ [name]) = .ok (reached, found) ↔
      reached = steps ++ [name] ∧ nodeAt? tree (steps ++ [name]) = some found := by
  induction rest generalizing here with
  | nil =>
      obtain ⟨rfl, hnode⟩ := walk_nil_eq_ok_iff.mp h
      rw [List.nil_append, walk_cons_eq_ok_iff, and_iff_right hnode, onward, if_neg hname,
        walk_nil_eq_ok_iff, List.reverse_cons]
  | cons step rest ih =>
      obtain ⟨hnode, hway⟩ := walk_cons_eq_ok_iff.mp h
      rw [List.cons_append, walk_cons_eq_ok_iff, and_iff_right hnode, ih hway]

theorem walk_home (home : List String) :
    walk { tree with home := home } here rest = walk tree here rest := by
  induction rest generalizing here with
  | nil => rfl
  | cons step rest ih =>
      rw [walk.eq_def, walk.eq_def]
      dsimp only
      rw [ih]
      rfl

/-- A path with a root leads to the same place from every working directory. -/
theorem find_of_root (hroot : path.root ≠ "") (home : List String) :
    { tree with home := home }.find path = tree.find path := by
  rw [find, find, origin, origin, if_neg hroot, if_neg hroot, walk_home]

/-! ### What stands in a directory -/

/-- The path of an entry of a directory. -/
theorem path_of_entry {way : List String} {entry : String × Node}
    (h : (match way.getLast? with
      | some name => if way.dropLast = steps then some (name, node) else none
      | none => none) = some entry) : (way, node) = (steps ++ [entry.1], entry.2) := by
  split at h
  · rename_i last hlast
    split at h
    · rename_i habove
      cases h
      rw [← habove, List.dropLast_append_getLast? last hlast]
    · cases h
  · cases h

theorem mem_entries {name : String} :
    (name, node) ∈ tree.entries steps ↔ (steps ++ [name], node) ∈ tree.nodes := by
  rw [entries, List.mem_filterMap]
  constructor
  · rintro ⟨⟨way, node'⟩, hmem, h⟩
    rwa [path_of_entry h] at hmem
  · exact fun hmem => ⟨_, hmem, by simp⟩

/-- With every path once in a tree, an entry of a directory is what stands at its path. -/
theorem mem_entries_iff (hn : (keys tree.nodes).Nodup) {name : String} :
    (name, node) ∈ tree.entries steps ↔ nodeAt? tree (steps ++ [name]) = some node := by
  rw [mem_entries, mem_iff_get? hn, nodeAt?, if_neg (by simp)]

/-- With every path once in a tree, every name stands once in a directory. -/
theorem nodup_keys_entries (hn : (keys tree.nodes).Nodup) (steps : List String) :
    (keys (tree.entries steps)).Nodup := by
  rw [keys, List.Nodup, List.pairwise_map] at hn ⊢
  refine List.Pairwise.filterMap _ ?_ hn
  rintro ⟨way, node⟩ ⟨way', node'⟩ hne a ha b hb hname
  cases path_of_entry ha
  cases path_of_entry hb
  exact hne (by rw [hname])

/-- A name in a directory leads to what stands there. -/
theorem find_join {directory : Path} (h : tree.find directory = .ok (steps, .directory))
    {name : String} (hname : name ≠ "..") (hnode : nodeAt? tree (steps ++ [name]) = some node) :
    tree.find (directory.join ⟨"", [name]⟩) = .ok (steps ++ [name], node) := by
  rw [Path.join, if_neg (not_not.mpr rfl)]
  exact (walk_concat_eq_ok_iff h hname).mpr ⟨rfl, hnode⟩

/-! ### What is written -/

theorem ne_nil_of_nodeAt? (h : nodeAt? tree steps ≠ some .directory) : steps ≠ [] := by
  rintro rfl
  exact h rfl

theorem nodeAt?_put (hne : steps ≠ []) (node : Node) (tree : Tree) (other : List String) :
    nodeAt? (tree.put steps node) other =
      if steps = other then some node else nodeAt? tree other := by
  rw [nodeAt?, nodeAt?, put, get?_put]
  split
  · rename_i hother
    have hnil : other = [] := List.isEmpty_iff.mp hother
    rw [if_neg (hnil ▸ hne)]
  · rfl

/-- What is put elsewhere than at a directory leaves every way as it is. -/
theorem walk_put (hdir : nodeAt? tree steps ≠ some .directory) (node : Node)
    (h : walk tree here rest = .ok (reached, found)) :
    walk (tree.put steps node) here rest =
      .ok (reached, if steps = reached then node else found) := by
  have hput := nodeAt?_put (ne_nil_of_nodeAt? hdir) node tree
  induction rest generalizing here with
  | nil =>
      obtain ⟨rfl, hnode⟩ := walk_nil_eq_ok_iff.mp h
      refine walk_nil_eq_ok_iff.mpr ⟨rfl, ?_⟩
      rw [hput, hnode]
      split <;> rfl
  | cons step rest ih =>
      obtain ⟨hnode, hway⟩ := walk_cons_eq_ok_iff.mp h
      -- the way goes on from a directory, which is not where the node is put
      have hother : steps ≠ here.reverse := fun e => hdir (e ▸ hnode)
      have hnode' : nodeAt? (tree.put steps node) here.reverse = some .directory := by
        rw [hput, if_neg hother, hnode]
      exact walk_cons_eq_ok_iff.mpr ⟨hnode', ih hway⟩

/-- What is put over a file is found where the file was. -/
theorem find_put (h : tree.find path = .ok (steps, found)) (hfound : found ≠ .directory)
    (node : Node) : (tree.put steps node).find path = .ok (steps, node) := by
  have hdir : nodeAt? tree steps ≠ some .directory := by
    rw [nodeAt?_of_walk h]
    exact fun e => hfound (Option.some.inj e)
  refine (walk_put hdir node h).trans ?_
  rw [if_pos rfl]

/-- What is put under a name in a directory is found there, when nothing was found before. -/
theorem find_put_of_missing {trouble : Trouble} {name : String}
    (hmissing : tree.find path = .error trouble) (hlast : path.steps.getLast? = some name)
    (hname : name ≠ "..") (hparent : tree.find ⟨path.root, path.steps.dropLast⟩ =
      .ok (steps, .directory)) (node : Node) :
    (tree.put (steps ++ [name]) node).find path = .ok (steps ++ [name], node) := by
  have hsteps : path.steps.dropLast ++ [name] = path.steps :=
    List.dropLast_append_getLast? name hlast
  have hdir : nodeAt? tree (steps ++ [name]) ≠ some .directory := by
    intro hnode
    have hfound := (walk_concat_eq_ok_iff hparent hname).mpr ⟨rfl, hnode⟩
    rw [hsteps] at hfound
    cases hmissing.symm.trans hfound
  have hparent' := walk_put hdir node hparent
  rw [if_neg (by simp)] at hparent'
  have hfound := (walk_concat_eq_ok_iff hparent' hname).mpr
    ⟨rfl, by rw [nodeAt?_put (ne_nil_of_nodeAt? hdir), if_pos rfl]⟩
  rwa [hsteps] at hfound

/-- A text that is written is put at the steps that the path leads to. -/
theorem find_of_write {text : String} (h : tree.write path text = .ok tree') :
    ∃ steps, tree' = tree.put steps (.file (Text.glyphsOfText text)) ∧
      tree'.find path = .ok (steps, .file (Text.glyphsOfText text)) := by
  rw [write] at h
  split at h
  · cases h
  · split at h
    · cases h
    · rename_i steps node hnode hfind
      cases h
      exact ⟨steps, rfl, find_put hfind hnode _⟩
    · rename_i trouble hmissing
      split at h
      · cases h
      · rename_i name hlast
        split at h
        · rename_i steps hparent
          split at h
          · cases h
          · rename_i hname
            cases h
            exact ⟨steps ++ [name], rfl, find_put_of_missing hmissing hlast hname hparent _⟩
        · cases h
        · cases h

end EnumHelpers.File.Tree
