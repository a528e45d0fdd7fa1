import EnumHelpers.Package.Load
import EnumHelpers.Proofs.Outcome
import EnumHelpers.Proofs.Package.Search
import EnumHelpers.Proofs.Settings.Names
import EnumHelpers.Proofs.Symbol.Names

/-!
# Proofs — the constants that files declare

The declared constants, read off by number: the name with number `i` in the declaration with number
`k` of a group takes the expression with number `i` and the type of the nearest declaration at or
before it in the group that gives any, with `k` for `iota`, and the names before it in the file are
counted, the blank ones too (`declAt`).

With distinct names, what is recorded for a constant is the value of its own expression
(`recordAll_entries`).  The files stand in the order of their names and the places in each of them
go up, so that to put the entries in order changes nothing (`ordered_of_pairwise`).

* `constantsOf_eq`: the constants of files are those that are read off by number.
-/

namespace EnumHelpers.Package
open Source

/-! ### By number -/

/-- What a row of declarations has given last. -/
def lastGiven (specs : List ConstSpec) : Option ConstValues := specs.reverse.findSome? (·.given)

/-- What the nearest declaration of a group gives, at or before the one with number `k`. -/
def nearest? (group : List ConstSpec) (k : Nat) : Option ConstValues :=
  lastGiven (group.take (k + 1))

/-- The comments of a file that are text. -/
def notesIn (file : SourceFile) : List Note := (notesOf file.comments).toOption.getD []

/-- The constant that the name with number `i` declares, in the declaration with number `k` of the
group with number `g` of a file. -/
def declAt (unit : String) (file : SourceFile) (group : List ConstSpec) (spec : ConstSpec)
    (g k i : Nat) (name : String) : ConstantDecl where
  name := name
  expression := (nearest? group k).bind fun v => v.expressions[i]?
  type := (nearest? group k).bind fun v => v.type.join
  iota := k
  unit := unit
  order := nameCount (file.constants.take g).flatten + nameCount (group.take k) + i
  comment := trailing? (notesIn file) spec.stop

/-- The constants of the declaration with number `k` in a group. -/
def declaredBy (unit : String) (file : SourceFile) (group : List ConstSpec) (g : Nat)
    (spec : ConstSpec) (k : Nat) : List ConstantDecl :=
  spec.names.zipIdx.filterMap fun (name, i) =>
    if name = "_" then none else some (declAt unit file group spec g k i name)

/-- The constants of the group with number `g` in a file. -/
def declaredInGroup (unit : String) (file : SourceFile) (group : List ConstSpec) (g : Nat) :
    List ConstantDecl :=
  group.zipIdx.flatMap fun (spec, k) => declaredBy unit file group g spec k

/-- The constants that a file declares, by number. -/
def declaredIn (unit : String) (file : SourceFile) : List ConstantDecl :=
  file.constants.zipIdx.flatMap fun (group, g) => declaredInGroup unit file group g

/-- The constants that the files of a package declare. -/
def declaredInAll (files : List (String × SourceFile)) : List ConstantDecl :=
  files.flatMap fun (unit, file) => declaredIn unit file

variable {unit : String} {notes : List Note} {decls : List ConstantDecl}

/-! ### What is in force -/

/-- What is in force when a declaration has given something. -/
def InForce.of : Option ConstValues → InForce
  | none => {}
  | some v => ⟨v.type.join, v.expressions⟩

theorem lastGiven_concat (specs : List ConstSpec) (spec : ConstSpec) :
    lastGiven (specs ++ [spec]) = spec.given.or (lastGiven specs) := by
  rw [lastGiven, List.reverse_append, List.reverse_singleton, List.singleton_append,
    List.findSome?_cons]
  cases spec.given with
  | none => rfl
  | some v => rfl

theorem nearest?_append (done rest : List ConstSpec) (spec : ConstSpec) :
    nearest? (done ++ spec :: rest) done.length = lastGiven (done ++ [spec]) := by
  rw [nearest?, List.take_append, List.take_of_length_le (Nat.le_succ _),
    Nat.add_sub_cancel_left, List.take_succ_cons, List.take_zero]

/-- A declaration leaves in force what was given last. -/
theorem InForce.at_of {done : List ConstSpec} {spec : ConstSpec} {inForce : InForce}
    (h : (InForce.of (lastGiven done)).at spec = .ok inForce) :
    inForce = InForce.of (lastGiven (done ++ [spec])) := by
  rw [lastGiven_concat]
  unfold InForce.at at h
  split at h
  · rename_i hg
    cases h
    rw [hg, Option.none_or]
  · rename_i hg
    cases h
    rw [hg, Option.some_or]
    rfl
  · rename_i hg
    cases h
    rw [hg, Option.some_or]
    rfl
  · cases h

theorem InForce.of_type (v : Option ConstValues) : (InForce.of v).type = v.bind (·.type.join) := by
  cases v with
  | none => rfl
  | some v => rfl

theorem InForce.of_expression (v : Option ConstValues) (i : Nat) :
    (InForce.of v).expressions[i]? = v.bind (·.expressions[i]?) := by
  cases v with
  | none => rfl
  | some v => rfl

/-! ### From the recursion to the numbers -/

theorem nameCount_append (a b : List ConstSpec) :
    nameCount (a ++ b) = nameCount a + nameCount b := by
  induction a with
  | nil => rw [List.nil_append, nameCount, Nat.zero_add]
  | cons spec a ih => rw [List.cons_append, nameCount, nameCount, ih, Nat.add_assoc]

theorem ofNames_eq (unit : String) (inForce : InForce) (iota : Nat) (comment : Option String)
    (base position : Nat) (names : List String) :
    ofNames unit inForce iota comment position (base + position) names =
      (names.zipIdx position).filterMap fun (name, i) => if name = "_" then none
        else some ⟨name, inForce.expressions[i]?, inForce.type, iota, unit, base + i, comment⟩ := by
  induction names generalizing position with
  | nil => rfl
  | cons name rest ih =>
      rw [ofNames, Nat.add_assoc, ih, List.zipIdx_cons, List.filterMap_cons]
      dsimp only
      by_cases h : name = "_"
      · rw [if_pos h, if_pos h]
      · rw [if_neg h, if_neg h]

/-- The constants of the rest of a group, when the declarations in `done` stand before it. -/
theorem ofGroup_eq {file : SourceFile} {group specs : List ConstSpec} {g : Nat}
    (done : List ConstSpec) (hgroup : group = done ++ specs)
    (h : ofGroup unit (notesIn file) (InForce.of (lastGiven done)) done.length
      (nameCount (file.constants.take g).flatten + nameCount done) specs = .ok decls) :
    decls = (specs.zipIdx done.length).flatMap fun (spec, k) =>
      declaredBy unit file group g spec k := by
  induction specs generalizing done decls with
  | nil =>
      cases h
      rfl
  | cons spec rest ih =>
      rw [ofGroup] at h
      obtain ⟨inForce, hat, h⟩ := bind_eq_ok.mp h
      obtain ⟨more, hmore, h⟩ := bind_eq_ok.mp h
      cases h
      rw [InForce.at_of hat] at hmore ⊢
      -- one more declaration is done: what is in force, its number and the count of names go along
      have hdone : group = (done ++ [spec]) ++ rest := by
        rw [hgroup, List.append_assoc, List.singleton_append]
      have hcount : nameCount (done ++ [spec]) = nameCount done + spec.names.length := by
        rw [nameCount_append, nameCount, nameCount, Nat.add_zero]
      have hlength : (done ++ [spec]).length = done.length + 1 := by
        rw [List.length_append, List.length_singleton]
      rw [← hlength, Nat.add_assoc, ← hcount] at hmore
      rw [List.zipIdx_cons, List.flatMap_cons, ← hlength, ← ih _ hdone hmore]
      congr 1
      have hnames := ofNames_eq unit (InForce.of (lastGiven (done ++ [spec]))) done.length
        (trailing? (notesIn file) spec.stop)
        (nameCount (file.constants.take g).flatten + nameCount done) 0 spec.names
      rw [Nat.add_zero] at hnames
      rw [hnames]
      have hnearest : nearest? group done.length = lastGiven (done ++ [spec]) := by
        rw [hgroup, nearest?_append]
      have htake : group.take done.length = done := by
        rw [hgroup, List.take_left']
        rfl
      simp only [InForce.of_type, InForce.of_expression, declaredBy, declAt, hnearest, htake]

/-- The constants of the rest of the groups of a file, when those in `done` stand before them. -/
theorem ofGroups_eq {file : SourceFile} {groups : List (List ConstSpec)}
    (done : List (List ConstSpec)) (hfile : file.constants = done ++ groups)
    (h : ofGroups unit (notesIn file) (nameCount done.flatten) groups = .ok decls) :
    decls = (groups.zipIdx done.length).flatMap fun (group, g) =>
      declaredInGroup unit file group g := by
  induction groups generalizing done decls with
  | nil =>
      cases h
      rfl
  | cons group rest ih =>
      rw [ofGroups] at h
      obtain ⟨here, hhere, h⟩ := bind_eq_ok.mp h
      obtain ⟨more, hmore, h⟩ := bind_eq_ok.mp h
      cases h
      -- a group begins with nothing in force, but the count of names goes on
      have hdone : file.constants = (done ++ [group]) ++ rest := by
        rw [hfile, List.append_assoc, List.singleton_append]
      have hcount : nameCount (done ++ [group]).flatten =
          nameCount done.flatten + nameCount group := by
        rw [List.flatten_append, nameCount_append, List.flatten_singleton]
      have hlength : (done ++ [group]).length = done.length + 1 := by
        rw [List.length_append, List.length_singleton]
      have htake : file.constants.take done.length = done := by
        rw [hfile, List.take_left']
        rfl
      rw [← hcount] at hmore
      rw [List.zipIdx_cons, List.flatMap_cons, ← hlength, ← ih _ hdone hmore]
      congr 1
      refine ofGroup_eq [] rfl ?_
      rw [htake]
      exact hhere

theorem notesIn_of {file : SourceFile} (h : notesOf file.comments = .ok notes) :
    notesIn file = notes := by
  rw [notesIn, h]
  rfl

/-- **The constants of a file, by number.** -/
theorem ofFile_eq {file : SourceFile} (h : ofFile unit file = .ok decls) :
    decls = declaredIn unit file := by
  rw [ofFile] at h
  obtain ⟨notes, hnotes, h⟩ := bind_eq_ok.mp h
  rw [← notesIn_of hnotes] at h
  exact ofGroups_eq [] rfl h

/-- **The constants of files, by number.** -/
theorem constantsOf_eq {files : List (String × SourceFile)} (h : constantsOf files = .ok decls) :
    decls = declaredInAll files := by
  rw [constantsOf] at h
  obtain ⟨lists, hlists, h⟩ := bind_eq_ok.mp h
  cases h
  rw [declaredInAll, List.flatMap_def]
  congr 1
  have hfiles := mapM_eq_ok hlists
  clear h hlists
  induction hfiles with
  | nil => rfl
  | cons hfile _ ih => rw [List.map_cons, ih, ofFile_eq hfile]

/-! ### Names -/

theorem map_name_names {f : String → Nat → ConstantDecl} (hf : ∀ name i, (f name i).name = name)
    (names : List String) (p : Nat) :
    ((names.zipIdx p).filterMap fun (name, i) => if name = "_" then none else some (f name i)).map
      ConstantDecl.name = names.filter (· ≠ "_") := by
  induction names generalizing p with
  | nil => rfl
  | cons name rest ih =>
      rw [List.zipIdx_cons, List.filterMap_cons]
      dsimp only
      by_cases h : name = "_"
      · rw [if_pos h, List.filter_cons_of_neg (by simp [h]), ih]
      · rw [if_neg h, List.filter_cons_of_pos (by simp [h]), List.map_cons, hf, ih]

theorem flatMap_zipIdx {α β : Type} (f : α → List β) (xs : List α) (p : Nat) :
    ((xs.zipIdx p).flatMap fun (a, _) => f a) = xs.flatMap f := by
  induction xs generalizing p with
  | nil => rfl
  | cons a xs ih => rw [List.zipIdx_cons, List.flatMap_cons, List.flatMap_cons, ih]

/-- The names that the files of a package declare, but for the blank one. -/
def namesIn (files : List (String × SourceFile)) : List String :=
  (files.flatMap fun (_, file) => file.constants.flatMap fun group =>
    group.flatMap (·.names)).filter (· ≠ "_")

/-- The constants that files declare have the names in them. -/
theorem map_name_declaredIn (files : List (String × SourceFile)) :
    (declaredInAll files).map ConstantDecl.name = namesIn files := by
  simp only [namesIn, declaredInAll, declaredIn, declaredInGroup, List.map_flatMap,
    List.filter_flatMap]
  congr 1
  funext ⟨unit, file⟩
  dsimp only
  have hspec : ∀ (group : List ConstSpec) (spec : ConstSpec) (g k : Nat),
      (declaredBy unit file group g spec k).map ConstantDecl.name = spec.names.filter (· ≠ "_") :=
    fun group spec g k =>
      map_name_names (f := fun name i => declAt unit file group spec g k i name) (fun _ _ => rfl)
        spec.names 0
  simp only [hspec]
  rw [← flatMap_zipIdx _ file.constants 0]
  congr 1
  funext ⟨group, g⟩
  exact flatMap_zipIdx (fun spec : ConstSpec => spec.names.filter (· ≠ "_")) group 0

/-! ### Places -/

/-- Constants whose places in their file go up from `lo` and stay below `hi`. -/
structure Within (lo hi : Nat) (decls : List ConstantDecl) : Prop where
  le : lo ≤ hi
  bounds : ∀ decl ∈ decls, lo ≤ decl.order ∧ decl.order < hi
  increasing : decls.Pairwise fun a b => a.order < b.order

theorem Within.append {lo mid hi : Nat} {as bs : List ConstantDecl} (ha : Within lo mid as)
    (hb : Within mid hi bs) : Within lo hi (as ++ bs) := by
  refine ⟨Nat.le_trans ha.le hb.le, fun decl hd => ?_, ?_⟩
  · rcases List.mem_append.mp hd with hd | hd
    · obtain ⟨hlo, hmid⟩ := ha.bounds decl hd
      exact ⟨hlo, Nat.lt_of_lt_of_le hmid hb.le⟩
    · obtain ⟨hmid, hhi⟩ := hb.bounds decl hd
      exact ⟨Nat.le_trans ha.le hmid, hhi⟩
  · refine List.pairwise_append.mpr ⟨ha.increasing, hb.increasing, fun a hain b hbin => ?_⟩
    exact Nat.lt_of_lt_of_le (ha.bounds a hain).2 (hb.bounds b hbin).1

theorem Within.nil (n : Nat) : Within n n [] :=
  ⟨Nat.le_refl n, fun _ hd => (List.not_mem_nil hd).elim, .nil⟩

/-- Nothing, or one constant with the place `n`. -/
theorem Within.optional {n : Nat} {o : Option ConstantDecl} (h : ∀ decl ∈ o, decl.order = n) :
    Within n (n + 1) o.toList := by
  cases o with
  | none => exact ⟨Nat.le_succ n, fun _ hd => (List.not_mem_nil hd).elim, .nil⟩
  | some decl =>
      refine ⟨Nat.le_succ n, fun d hd => ?_, List.pairwise_singleton _ _⟩
      rw [List.mem_singleton.mp hd, h decl rfl]
      exact ⟨Nat.le_refl n, Nat.lt_succ_self n⟩

/-- What stands in a row of intervals stands in all of them. -/
theorem within_flatMap {α : Type} {b : Nat → Nat} {f : α → Nat → List ConstantDecl}
    (xs : List α) (p : Nat)
    (h : ∀ j a, xs[j]? = some a → Within (b (p + j)) (b (p + j + 1)) (f a (p + j))) :
    Within (b p) (b (p + xs.length)) ((xs.zipIdx p).flatMap fun (a, k) => f a k) := by
  induction xs generalizing p with
  | nil => exact .nil _
  | cons a xs ih =>
      rw [List.zipIdx_cons, List.flatMap_cons, List.length_cons, Nat.add_comm xs.length,
        ← Nat.add_assoc]
      refine (h 0 a rfl).append (ih (p + 1) fun j a' ha' => ?_)
      have hnext := h (j + 1) a' ha'
      rwa [← Nat.add_assoc, Nat.add_right_comm] at hnext

theorem within_names {f : String → Nat → ConstantDecl} {base : Nat}
    (hf : ∀ name i, (f name i).order = base + i) (names : List String) :
    Within base (base + names.length) (names.zipIdx.filterMap fun (name, i) =>
      if name = "_" then none else some (f name i)) := by
  rw [List.filterMap_eq_flatMap_toList]
  have hrow := within_flatMap (b := fun i => base + i)
    (f := fun name i => (if name = "_" then none else some (f name i)).toList) names 0
    fun i name _ => Within.optional fun decl hd => ?_
  · rwa [Nat.add_zero, Nat.zero_add] at hrow
  · split at hd
    · cases hd
    · cases hd
      exact hf name _

theorem nameCount_take_succ {group : List ConstSpec} {k : Nat} {spec : ConstSpec}
    (h : group[k]? = some spec) :
    nameCount (group.take (k + 1)) = nameCount (group.take k) + spec.names.length := by
  rw [List.take_add_one, h, nameCount_append]
  rfl

/-- The constants of a group stand in order, after those of the groups before it. -/
theorem within_group (unit : String) (file : SourceFile) (group : List ConstSpec) (g : Nat) :
    Within (nameCount (file.constants.take g).flatten)
      (nameCount (file.constants.take g).flatten + nameCount group)
      (declaredInGroup unit file group g) := by
  have hrow := within_flatMap
    (b := fun k => nameCount (file.constants.take g).flatten + nameCount (group.take k))
    (f := declaredBy unit file group g) group 0 fun k spec hspec => ?_
  · rwa [Nat.zero_add, List.take_length] at hrow
  · rw [Nat.zero_add, nameCount_take_succ hspec, ← Nat.add_assoc]
    exact within_names (f := fun name i => declAt unit file group spec g k i name)
      (fun _ _ => rfl) spec.names

/-- The constants of a file stand in order. -/
theorem within_declaredIn (unit : String) (file : SourceFile) :
    Within 0 (nameCount file.constants.flatten) (declaredIn unit file) := by
  have hrow := within_flatMap (b := fun g => nameCount (file.constants.take g).flatten)
    (f := declaredInGroup unit file) file.constants 0 fun g group hgroup => ?_
  · rwa [Nat.zero_add, List.take_length] at hrow
  · have hcount : nameCount (file.constants.take (g + 1)).flatten =
        nameCount (file.constants.take g).flatten + nameCount group := by
      rw [List.take_add_one, hgroup, List.flatten_append, nameCount_append, Option.toList_some,
        List.flatten_singleton]
    rw [Nat.zero_add, hcount]
    exact within_group unit file group g

/-- A constant stands before another one in order of units and places. -/
def Before (a b : ConstantDecl) : Prop := a.unit < b.unit ∨ a.unit = b.unit ∧ a.order < b.order

theorem unit_of_mem {unit : String} {file : SourceFile} {decl : ConstantDecl}
    (h : decl ∈ declaredIn unit file) : decl.unit = unit := by
  obtain ⟨⟨group, g⟩, -, h⟩ := List.mem_flatMap.mp h
  obtain ⟨⟨spec, k⟩, -, h⟩ := List.mem_flatMap.mp h
  obtain ⟨⟨name, i⟩, -, h⟩ := List.mem_filterMap.mp h
  dsimp only at h
  split at h
  · cases h
  · cases h
    rfl

/-- The constants of files stand in order, when the files do. -/
theorem pairwise_before {files : List (String × SourceFile)}
    (h : (files.map Prod.fst).Pairwise (· < ·)) :
    (declaredInAll files).Pairwise Before := by
  rw [declaredInAll, List.pairwise_flatMap]
  constructor
  · rintro ⟨unit, file⟩ -
    refine (within_declaredIn unit file).increasing.imp_of_mem fun ha hb hlt => .inr ⟨?_, hlt⟩
    rw [unit_of_mem ha, unit_of_mem hb]
  · refine (List.pairwise_map.mp h).imp fun {f f'} hlt => ?_
    intro a ha b hb
    refine .inl ?_
    rw [unit_of_mem ha, unit_of_mem hb]
    exact hlt

/-! ### Entries -/

/-- The value and type of a constant: those of its own expression, with the number of its
declaration for `iota`; no value when it has no expression or leads back to itself. -/
noncomputable def valueOf (types : Types) (decls : List ConstantDecl) (decl : ConstantDecl) :
    Except EnumHelpers.Failure (Recorded × Option String) :=
  match decl.expression with
  | none => .ok (.absent, decl.type)
  | some e => recorded decl (((denote types (final types decls) decl.iota e).getD
      (.error (.cycle decl.name))).map decl.settled)

/-- The entry of a constant in a table. -/
noncomputable def entryOf (types : Types) (decls : List ConstantDecl) (decl : ConstantDecl) :
    Except EnumHelpers.Failure ConstantRecord :=
  (valueOf types decls decl).map fun here => recordOf (decl, here)

theorem find?_of_nodup {xs : List ConstantDecl} (hn : (xs.map ConstantDecl.name).Nodup)
    {decl : ConstantDecl} (hd : decl ∈ xs) : xs.find? (·.name == decl.name) = some decl := by
  induction xs with
  | nil => exact (List.not_mem_nil hd).elim
  | cons first rest ih =>
      rw [List.map_cons, List.nodup_cons] at hn
      rw [List.find?_cons]
      rcases List.mem_cons.mp hd with rfl | hd
      · rw [beq_self_eq_true]
      · have hne : first.name ≠ decl.name :=
          fun h => hn.1 (h ▸ List.mem_map_of_mem hd)
        rw [beq_false_of_ne hne]
        exact ih hn.2 hd

/-- With distinct names, every declaration is the one that its name has. -/
theorem declOf?_of_mem (hn : (decls.map ConstantDecl.name).Nodup) {decl : ConstantDecl}
    (hd : decl ∈ decls) : declOf? decls decl.name = some decl := by
  refine find?_of_nodup ?_ (List.mem_reverse.mpr hd)
  rw [List.map_reverse]
  exact List.nodup_reverse.mpr hn

/-- What is recorded for a constant is the value of its own expression. -/
theorem recordedFor_eq {types : Types} {decl : ConstantDecl}
    (hd : declOf? decls decl.name = some decl) :
    (recordedFor types decls decl).map recordOf = entryOf types decls decl := by
  have hvalue : recorded decl (outcome types decls decl.name) = valueOf types decls decl := by
    rw [outcome, ← declared_final, declared, hd, valueOf]
    dsimp only
    cases decl.expression with
    | none => rfl
    | some e =>
        cases h : denote types (final types decls) decl.iota e with
        | none => simp only [h, Option.map_none, Option.getD_none, Except.map]
        | some o => simp only [h, Option.map_some, Option.getD_some]
  rw [recordedFor, hvalue, entryOf]
  cases valueOf types decls decl with
  | error cause => rfl
  | ok here => rfl

/-- The entries of constants with distinct names. -/
theorem recordAll_entries {types : Types} (hn : (decls.map ConstantDecl.name).Nodup) :
    (recordAll types decls {} decls).map (List.map recordOf) =
      decls.mapM (entryOf types decls) := by
  rw [recordAll_eq decls sound_empty, map_mapM]
  exact mapM_congr fun decl hd => recordedFor_eq (declOf?_of_mem hn hd)

/-! ### Entries in order -/

theorem key_of_entryOf {types : Types} {decl : ConstantDecl} {r : ConstantRecord}
    (h : entryOf types decls decl = .ok r) :
    r.unit = .str decl.unit ∧ r.order = .int decl.order := by
  obtain ⟨here, -, rfl⟩ := map_eq_ok.mp h
  exact ⟨rfl, rfl⟩

/-- One record stands before another one, and not the other way round. -/
def RecordBefore (r s : ConstantRecord) : Prop :=
  SymbolTable.recordBefore? r s = some true ∧ SymbolTable.recordBefore? s r = some false

theorem recordBefore_of_before {a b : ConstantDecl} (h : Before a b) {r s : ConstantRecord}
    (hr : r.unit = .str a.unit ∧ r.order = .int a.order)
    (hs : s.unit = .str b.unit ∧ s.order = .int b.order) :
    RecordBefore r s := by
  rw [RecordBefore, SymbolTable.recordBefore?, SymbolTable.recordBefore?, hr.1, hr.2, hs.1, hs.2]
  rcases h with hlt | ⟨hunit, hlt⟩
  · have hne : a.unit ≠ b.unit := fun he => String.lt_irrefl _ (he ▸ hlt)
    simp only [Json.same_str, Json.before?_str, beq_false_of_ne hne, beq_false_of_ne hne.symm,
      Bool.not_false, if_true, decide_eq_true hlt, decide_eq_false (String.lt_asymm hlt), and_self]
  · have hne : (a.order : Int) ≠ b.order := by omega
    have hbelow : (a.order : Int) < b.order := by omega
    have hnot : ¬ (b.order : Int) < a.order := by omega
    simp only [Json.same_str, Json.same_int, Json.before?_int, hunit, beq_self_eq_true,
      Bool.not_true, Bool.false_eq_true, if_false, beq_false_of_ne hne, beq_false_of_ne hne.symm,
      Bool.not_false, if_true, decide_eq_true hbelow, decide_eq_false hnot, and_self]

theorem allComparable_of_pairwise {rs : List ConstantRecord} (h : rs.Pairwise RecordBefore) :
    SymbolTable.allComparable rs = true := by
  induction h with
  | nil => rfl
  | cons hr _ ih =>
      rw [SymbolTable.allComparable, ih, Bool.and_true, List.all_eq_true]
      intro s hs
      rw [SymbolTable.comparable, (hr s hs).1]
      rfl

/-- Records of which every one stands before all later ones are in order. -/
theorem ordered_of_pairwise {t : SymbolTable} (h : t.constants.Pairwise RecordBefore) :
    t.ordered = .ok t.constants := by
  have hsorted : t.constants.Pairwise fun r s => SymbolTable.mayPrecede r s = true := by
    refine h.imp fun {r s} hrs => ?_
    rw [SymbolTable.mayPrecede, hrs.2]
    rfl
  rw [SymbolTable.ordered, if_pos (allComparable_of_pairwise h), List.mergeSort_of_pairwise hsorted]

/-- The entries of constants that stand in order are in order. -/
theorem pairwise_entries {types : Types} {ds : List ConstantDecl} {rs : List ConstantRecord}
    (hd : ds.Pairwise Before) (h : ds.mapM (entryOf types decls) = .ok rs) :
    rs.Pairwise RecordBefore := by
  induction ds generalizing rs with
  | nil =>
      cases h
      exact .nil
  | cons a ds ih =>
      rw [List.mapM_cons] at h
      obtain ⟨r, hr, h⟩ := bind_eq_ok.mp h
      obtain ⟨rest, hrest, h⟩ := bind_eq_ok.mp h
      cases h
      rw [List.pairwise_cons] at hd
      refine List.pairwise_cons.mpr ⟨fun s hs => ?_, ih hd.2 hrest⟩
      obtain ⟨b, hb, hbs⟩ := exists_of_mem_mapM hrest hs
      exact recordBefore_of_before (hd.1 b hb) (key_of_entryOf hr) (key_of_entryOf hbs)

/-! ### Loading -/

/-- The files of a package as they are read: one for each source, in the order of their names. -/
structure FilesOf (sources : Sources) (files : List (String × SourceFile)) : Prop where
  increasing : (files.map Prod.fst).Pairwise (· < ·)
  units : (files.map Prod.fst).Perm (OrderedMap.keys sources)
  parsed : ∀ unit file, (unit, file) ∈ files →
    ∃ content, (unit, content) ∈ sources ∧ SourceFile.parse content = some file

theorem parse_of_parseUnit {unit package : String} {content : List Text.Glyph} {file : SourceFile}
    (h : parseUnit unit content = .ok (package, file)) : SourceFile.parse content = some file := by
  -- the equations of the reader are never needed, and costly to make
  delta parseUnit at h
  split at h
  · cases h
  · rename_i hparse
    split at h
    · cases h
    · cases h
      exact hparse

/-- The sources in order, whose names are distinct, have names that go up. -/
theorem increasing_sorted {sources : Sources} (hkeys : (OrderedMap.keys sources).Nodup) :
    ((sorted sources).map Prod.fst).Pairwise (· < ·) :=
  Settings.increasing_mergeSort hkeys

theorem sorted_of_perm {sources sources' : Sources} (h : sources.Perm sources')
    (hkeys : (OrderedMap.keys sources).Nodup) : sorted sources = sorted sources' := by
  have hkeys' : (OrderedMap.keys sources').Nodup := (h.map Prod.fst).nodup_iff.mp hkeys
  refine Settings.eq_of_increasing ?_ (increasing_sorted hkeys) (increasing_sorted hkeys')
  exact (List.mergeSort_perm _ _).trans (h.trans (List.mergeSort_perm _ _).symm)

/-- The order in which sources are given does not matter. -/
theorem load_of_perm {sources sources' : Sources} (h : sources.Perm sources')
    (hkeys : (OrderedMap.keys sources).Nodup) : load sources = load sources' := by
  rw [load, load, parseAll, parseAll, sorted_of_perm h hkeys]

/-- A file that is parsed keeps the name of its source. -/
theorem parsed_row {entry : String × List Text.Glyph} {p : String × String × SourceFile}
    (h : (do
      let (package, file) ← parseUnit entry.1 entry.2
      .ok (entry.1, package, file) : Except EnumHelpers.Failure _) = .ok p) :
    p.1 = entry.1 ∧ SourceFile.parse entry.2 = some p.2.2 := by
  obtain ⟨⟨package, file⟩, hparse, h⟩ := bind_eq_ok.mp h
  cases h
  exact ⟨rfl, parse_of_parseUnit hparse⟩

/-- Files that are parsed are the files of their sources. -/
theorem filesOf_parseAll {sources : Sources} {parsed : List (String × String × SourceFile)}
    (hkeys : (OrderedMap.keys sources).Nodup) (h : parseAll sources = .ok parsed) :
    FilesOf sources (parsed.map fun (unit, _, file) => (unit, file)) := by
  rw [parseAll] at h
  have hunits : parsed.map Prod.fst = (sorted sources).map Prod.fst := by
    have hrows := mapM_eq_ok h
    clear h
    generalize sorted sources = entries at hrows
    induction hrows with
    | nil => rfl
    | cons hp _ ih => rw [List.map_cons, List.map_cons, ih, (parsed_row hp).1]
  have hfst : (parsed.map fun (unit, _, file) => (unit, file)).map Prod.fst =
      (sorted sources).map Prod.fst := by
    rw [List.map_map, ← hunits]
    rfl
  refine ⟨hfst ▸ increasing_sorted hkeys, ?_, fun unit file hmem => ?_⟩
  · rw [hfst]
    exact (List.mergeSort_perm sources entryLE).map Prod.fst
  · obtain ⟨p, hp, heq⟩ := List.mem_map.mp hmem
    obtain ⟨s, hs, hps⟩ := exists_of_mem_mapM h hp
    obtain ⟨hunit, hparse⟩ := parsed_row hps
    cases heq
    exact ⟨s.2, hunit ▸ List.mem_mergeSort.mp hs, hparse⟩

theorem FilesOf.nodup {sources : Sources} {files : List (String × SourceFile)}
    (h : FilesOf sources files) : (OrderedMap.keys sources).Nodup := by
  refine h.units.nodup_iff.mp (h.increasing.imp fun {a b} hlt => ?_)
  rintro rfl
  exact String.lt_irrefl _ hlt

/-- There is one way to read the files of a package. -/
theorem FilesOf.unique {sources : Sources} {files files' : List (String × SourceFile)}
    (h : FilesOf sources files) (h' : FilesOf sources files') : files = files' := by
  have hunits : files.map Prod.fst = files'.map Prod.fst :=
    (h.units.trans h'.units.symm).eq_of_pairwise
      (fun a b _ _ hab hba => (String.lt_asymm hab hba).elim) h.increasing h'.increasing
  -- the names are the same, row by row, and a name has one content
  have hlength : files.length = files'.length := by
    simpa using congrArg List.length hunits
  refine List.ext_getElem hlength fun i hi hi' => ?_
  have hunit : files[i].1 = files'[i].1 := by
    have heq := List.getElem_of_eq hunits (by simpa using hi)
    simpa using heq
  obtain ⟨content, hmem, hparse⟩ := h.parsed files[i].1 files[i].2 (List.getElem_mem hi)
  obtain ⟨content', hmem', hparse'⟩ := h'.parsed files'[i].1 files'[i].2 (List.getElem_mem hi')
  have hcontent : content = content' := by
    have hget := OrderedMap.get?_of_mem h.nodup hmem
    rw [hunit, OrderedMap.get?_of_mem h.nodup hmem'] at hget
    exact (Option.some.inj hget).symm
  rw [hcontent, hparse'] at hparse
  exact Prod.ext hunit (Option.some.inj hparse).symm

/-- **The table of a package.**  When the constants of its files have distinct names, but for the
blank one, the table has one entry for each of them: file by file in the order of their names, group
by group and name by name, each with the value of its own expression.  To put the entries in order
leaves them as they are. -/
theorem constants_of_load {sources : Sources} {files : List (String × SourceFile)}
    {table : SymbolTable} (hfiles : FilesOf sources files) (hnames : (namesIn files).Nodup)
    (h : load sources = .ok table) :
    ∃ types, Types.ofFiles (files.map Prod.snd) = .ok types ∧
      (declaredInAll files).mapM (entryOf types (declaredInAll files)) = .ok table.constants ∧
      table.ordered = .ok table.constants := by
  rw [load] at h
  obtain ⟨parsed, hparsed, h⟩ := bind_eq_ok.mp h
  obtain ⟨package, -, h⟩ := bind_eq_ok.mp h
  rw [(filesOf_parseAll hfiles.nodup hparsed).unique hfiles, tableOf] at h
  obtain ⟨types, htypes, h⟩ := bind_eq_ok.mp h
  obtain ⟨decls, hdecls, h⟩ := bind_eq_ok.mp h
  obtain ⟨records, hrecords, h⟩ := bind_eq_ok.mp h
  have hconstants : table.constants = records.map recordOf := by
    cases h
    rfl
  -- with distinct names, every constant is the one that its name leads to
  have hall : decls = declaredInAll files := constantsOf_eq hdecls
  have hentries : decls.mapM (entryOf types decls) = .ok table.constants := by
    rw [← recordAll_entries, hrecords, hconstants]
    · rfl
    · rwa [hall, map_name_declaredIn]
  refine ⟨types, htypes, hall ▸ hentries, ordered_of_pairwise (pairwise_entries ?_ hentries)⟩
  rw [hall]
  exact pairwise_before hfiles.increasing

/-- A file with a blank name and a declaration that repeats the one before it. -/
def blankSource : List Text.Glyph :=
  "package p\nconst (\nA, B = iota, 2\n_, C\n)\n".toList.map .char

/-- A file with one constant. -/
def plainSource : List Text.Glyph := "package p\nconst D = 7\n".toList.map .char

/-- What the first file says. -/
def blankFile : SourceFile :=
  ⟨some "p", [], [[⟨["A", "B"], some ⟨none, [.iota, .int "2"]⟩, ⟨2, 14⟩⟩,
    ⟨["_", "C"], none, ⟨3, 4⟩⟩]], []⟩

/-- What the second file says. -/
def plainFile : SourceFile :=
  ⟨some "p", [], [[⟨["D"], some ⟨none, [.int "7"]⟩, ⟨1, 11⟩⟩]], []⟩

theorem parse_blankSource : SourceFile.parse blankSource = some blankFile := by
  decide +kernel

theorem parse_plainSource : SourceFile.parse plainSource = some plainFile := by
  decide +kernel

/-- The files of a package. -/
def twoSources : Sources := [("a.go", plainSource), ("b.go", blankSource)]

theorem parseUnit_eq_ok {unit package : String} {content : List Text.Glyph} {file : SourceFile}
    (hparse : SourceFile.parse content = some file) (hpackage : file.package = some package) :
    parseUnit unit content = .ok (package, file) := by
  delta parseUnit
  simp only [hparse, hpackage]

theorem parseAll_singleton {unit package : String} {content : List Text.Glyph} {file : SourceFile}
    (hparse : SourceFile.parse content = some file) (hpackage : file.package = some package) :
    parseAll [(unit, content)] = .ok [(unit, package, file)] := by
  rw [parseAll, sorted, List.mergeSort_singleton]
  simp only [List.mapM_cons, List.mapM_nil, parseUnit_eq_ok hparse hpackage]
  rfl

theorem filesOf_twoSources :
    FilesOf twoSources [("a.go", plainFile), ("b.go", blankFile)] := by
  refine ⟨by decide, by decide, fun unit file hmem => ?_⟩
  rcases List.mem_cons.mp hmem with heq | hmem
  · cases heq
    exact ⟨_, List.mem_cons_self, parse_plainSource⟩
  · cases List.mem_singleton.mp hmem
    exact ⟨_, List.mem_cons_of_mem _ List.mem_cons_self, parse_blankSource⟩

theorem load_twoSources : ∃ table, load twoSources = .ok table := by
  have hsorted : sorted twoSources = twoSources := List.mergeSort_of_pairwise (by decide)
  have hparsed : parseAll twoSources =
      .ok [("a.go", "p", plainFile), ("b.go", "p", blankFile)] := by
    rw [parseAll, hsorted]
    simp only [twoSources, List.mapM_cons, parseUnit_eq_ok parse_plainSource rfl,
      parseUnit_eq_ok parse_blankSource rfl]
    rfl
  rw [load, hparsed, ok_bind]
  exact ⟨_, rfl⟩

theorem constants_of_load_twoSources : ∃ table types, load twoSources = .ok table ∧
    (declaredInAll [("a.go", plainFile), ("b.go", blankFile)]).mapM
        (entryOf types (declaredInAll [("a.go", plainFile), ("b.go", blankFile)])) =
      .ok table.constants ∧
    table.ordered = .ok table.constants := by
  obtain ⟨table, htable⟩ := load_twoSources
  obtain ⟨types, -, hentries, hordered⟩ :=
    constants_of_load filesOf_twoSources (by decide) htable
  exact ⟨table, types, htable, hentries, hordered⟩

end EnumHelpers.Package
