import EnumHelpers.Package.Loader
import EnumHelpers.Proofs.Package.Declarations
import EnumHelpers.Proofs.Package.Loading

/-!
# Proofs — a loader that is used again

A loader takes up the types and constants of a package in the order in which they are declared, and
records the constants from what it has taken up.  Each of its steps follows the computation of the
table from the sources alone (`Follows`): they stop for one cause, or neither stops and what they
come to is related.  The steps begin with the drop of all that the loader held, so the table of a
package is what its sources come to, whatever the loader has been used for.

* `run_loadSources`: a loader in any state comes to what the sources come to.
* `loadEach_of_perm`: loads by one loader have the outcomes of loads by fresh ones, and keep them.
-/

namespace EnumHelpers.Package.Loader
open Source OrderedMap

variable {α β γ δ : Type} {loader : Loader}

/-! ### Steps and outcomes -/

/-- From a loader on, a loading follows an outcome: both stop for one cause, or neither stops and
what they come to is related, together with the loader at the end. -/
def Follows (x : Loading α) (loader : Loader) (R : α → Loader → β → Prop) :
    Except Failure β → Prop
  | .error cause => ∃ after, x.run loader = (.error cause, after)
  | .ok b => ∃ a after, x.run loader = (.ok a, after) ∧ R a after b

theorem Follows.bind {x : Loading α} {f : α → Loading γ} {o : Except Failure β}
    {g : β → Except Failure δ} {R : α → Loader → β → Prop} {S : γ → Loader → δ → Prop}
    (h : Follows x loader R o) (hfg : ∀ a after b, R a after b → Follows (f a) after S (g b)) :
    Follows (x >>= f) loader S (o >>= g) := by
  cases o with
  | error cause =>
      obtain ⟨after, hrun⟩ := h
      exact ⟨after, run_bind_error hrun⟩
  | ok b =>
      obtain ⟨a, after, hrun, hab⟩ := h
      rw [ok_bind]
      have hnext := hfg a after b hab
      cases hgb : g b with
      | error cause =>
          rw [hgb] at hnext
          obtain ⟨last, hlast⟩ := hnext
          exact ⟨last, (run_bind_ok hrun).trans hlast⟩
      | ok d =>
          rw [hgb] at hnext
          obtain ⟨c, last, hlast, hcd⟩ := hnext
          exact ⟨c, last, (run_bind_ok hrun).trans hlast, hcd⟩

/-- A step that cannot stop may stand behind what follows an outcome. -/
theorem Follows.andThen {x : Loading α} {f : α → Loading γ} {o : Except Failure β}
    {R : α → Loader → β → Prop} {S : γ → Loader → β → Prop} (h : Follows x loader R o)
    (hf : ∀ a after b, R a after b → ∃ c last, (f a).run after = (.ok c, last) ∧ S c last b) :
    Follows (x >>= f) loader S o := by
  have hbind : Follows (x >>= f) loader S (o >>= .ok) := h.bind hf
  cases o with
  | error cause => exact hbind
  | ok b => exact hbind

/-- A step that cannot stop may stand before what follows an outcome from there on. -/
theorem Follows.after {x : Loading α} {f : α → Loading γ} {o : Except Failure δ}
    {S : γ → Loader → δ → Prop} {a : α} {next : Loader} (hrun : x.run loader = (.ok a, next))
    (h : Follows (f a) next S o) : Follows (x >>= f) loader S o := by
  have hx : Follows x loader (fun a' next' (_ : Unit) => a' = a ∧ next' = next) (.ok ()) :=
    ⟨a, next, hrun, rfl, rfl⟩
  refine hx.bind (g := fun _ => o) ?_
  rintro _ _ _ ⟨rfl, rfl⟩
  exact h

/-- What is made of an outcome is followed as the outcome is. -/
theorem Follows.map {x : Loading α} {o : Except Failure β} {R : α → Loader → β → Prop}
    {g : β → δ} {S : α → Loader → δ → Prop} (h : Follows x loader R o)
    (hg : ∀ a after b, R a after b → S a after (g b)) :
    Follows x loader S (o >>= fun b => .ok (g b)) := by
  cases o with
  | error cause => exact h
  | ok b =>
      obtain ⟨a, after, hrun, hab⟩ := h
      exact ⟨a, after, hrun, hg a after b hab⟩

theorem follows_settle (o : Except Failure α) :
    Follows (settle o) loader (fun a after b => a = b ∧ after = loader) o := by
  cases o with
  | error cause => exact ⟨loader, rfl⟩
  | ok a => exact ⟨a, loader, rfl, rfl, rfl⟩

theorem run_reset (loader : Loader) : reset.run loader = (.ok (), {}) := rfl

theorem run_get : (get : Loading Loader).run loader = (.ok loader, loader) := rfl

/-! ### Types -/

theorem follows_enterType (spec : TypeSpec) :
    Follows (enterType spec) loader (fun _ after types => after = { loader with types })
      (loader.types.enter spec) := by
  refine .after run_get ((follows_settle _).andThen ?_)
  rintro types _ _ ⟨rfl, rfl⟩
  exact ⟨(), _, rfl, rfl⟩

theorem follows_enterTypes (specs : List TypeSpec) :
    Follows (specs.forM enterType) loader (fun _ after types => after = { loader with types })
      (specs.foldlM Types.enter loader.types) := by
  induction specs generalizing loader with
  | nil => exact ⟨(), loader, rfl, rfl⟩
  | cons spec rest ih =>
      rw [List.foldlM_cons]
      refine (follows_enterType spec).bind ?_
      rintro _ _ types rfl
      exact ih

/-- The types of files are taken up as they are declared, file by file. -/
theorem follows_types (files : List (String × SourceFile)) :
    Follows (files.forM fun (_, file) => file.types.forM enterType) loader
      (fun _ after types => after = { loader with types })
      (((files.map Prod.snd).flatMap (·.types)).foldlM Types.enter loader.types) := by
  induction files generalizing loader with
  | nil => exact ⟨(), loader, rfl, rfl⟩
  | cons file rest ih =>
      rw [List.map_cons, List.flatMap_cons, List.foldlM_append]
      refine (follows_enterTypes file.2.types).bind ?_
      rintro _ _ types rfl
      exact ih

/-! ### Constants -/

/-- A loader that takes up declarations, one after another. -/
def includingAll (loader : Loader) (decls : List ConstantDecl) : Loader :=
  decls.foldl including loader

theorem run_enterConstants (decls : List ConstantDecl) :
    (decls.forM enterConstant).run loader = (.ok (), loader.includingAll decls) := by
  induction decls generalizing loader with
  | nil => rfl
  | cons decl rest ih => exact ih

theorem includingAll_append (loader : Loader) (first rest : List ConstantDecl) :
    (loader.includingAll first).includingAll rest = loader.includingAll (first ++ rest) :=
  (List.foldl_append ..).symm

/-- A loader after the constants of a group, with the number of names before its end. -/
theorem follows_enterGroup (unit : String) (notes : List Note) (before : InForce)
    (iota order : Nat) (specs : List ConstSpec) :
    Follows (enterGroup unit notes before iota order specs) loader
      (fun last after decls => last = order + nameCount specs ∧
        after = loader.includingAll decls)
      (ofGroup unit notes before iota order specs) := by
  induction specs generalizing loader before iota order with
  | nil => exact ⟨order, loader, rfl, rfl, rfl⟩
  | cons spec rest ih =>
      rw [enterGroup, ofGroup]
      refine (follows_settle _).bind ?_
      rintro inForce _ _ ⟨rfl, rfl⟩
      refine .after (run_enterConstants _) ((ih inForce _ _).map ?_)
      rintro last _ more ⟨rfl, rfl⟩
      exact ⟨by rw [nameCount, Nat.add_assoc], includingAll_append ..⟩

theorem follows_enterGroups (unit : String) (notes : List Note) (order : Nat)
    (groups : List (List ConstSpec)) :
    Follows (enterGroups unit notes order groups) loader
      (fun _ after decls => after = loader.includingAll decls)
      (ofGroups unit notes order groups) := by
  induction groups generalizing loader order with
  | nil => exact ⟨(), loader, rfl, rfl⟩
  | cons group rest ih =>
      rw [enterGroups, ofGroups]
      refine (follows_enterGroup unit notes {} 0 order group).bind ?_
      rintro _ _ here ⟨rfl, rfl⟩
      refine (ih _).map ?_
      rintro _ _ more rfl
      exact includingAll_append ..

theorem follows_enterConstants (unit : String) (file : SourceFile) :
    Follows (enterConstants unit file) loader
      (fun _ after decls => after = loader.includingAll decls) (ofFile unit file) := by
  rw [enterConstants, ofFile]
  refine (follows_settle _).bind ?_
  rintro notes _ _ ⟨rfl, rfl⟩
  exact follows_enterGroups unit notes 0 file.constants

theorem constantsOf_cons (unit : String) (file : SourceFile) (rest : List (String × SourceFile)) :
    constantsOf ((unit, file) :: rest) =
      (ofFile unit file >>= fun here => constantsOf rest >>= fun more => .ok (here ++ more)) := by
  rw [constantsOf, constantsOf, List.mapM_cons]
  dsimp only
  cases ofFile unit file with
  | error cause => rfl
  | ok here => cases rest.mapM fun (unit, file) => ofFile unit file <;> rfl

/-- The constants of files are taken up as they are declared, file by file. -/
theorem follows_constants (files : List (String × SourceFile)) :
    Follows (files.forM fun (unit, file) => enterConstants unit file) loader
      (fun _ after decls => after = loader.includingAll decls) (constantsOf files) := by
  induction files generalizing loader with
  | nil => exact ⟨(), loader, rfl, rfl⟩
  | cons file rest ih =>
      obtain ⟨unit, file⟩ := file
      rw [constantsOf_cons]
      refine (follows_enterConstants unit file).bind ?_
      rintro _ _ here rfl
      refine ih.map ?_
      rintro _ _ more rfl
      exact includingAll_append ..

/-! ### What a loader has taken up -/

theorem includingAll_eq (loader : Loader) (decls : List ConstantDecl) :
    loader.includingAll decls = { loader with
      declared := decls.foldl (fun m decl => put decl.name decl m) loader.declared
      ordered := loader.ordered ++ decls } := by
  induction decls generalizing loader with
  | nil => rw [List.append_nil]; rfl
  | cons decl rest ih =>
      rw [includingAll, List.foldl_cons, ← includingAll, ih, including]
      simp only [List.foldl_cons, List.append_assoc, List.singleton_append]

/-- In a map by names a name leads to the declaration that it leads to in the list of them. -/
theorem declOf?_values {m : OrderedMap String ConstantDecl} (hn : (keys m).Nodup)
    (hnames : ∀ entry ∈ m, entry.2.name = entry.1) (name : String) :
    declOf? (m.map Prod.snd) name = get? name m := by
  cases hget : get? name m with
  | none =>
      rw [declOf?, List.find?_eq_none]
      intro decl hdecl hname
      obtain ⟨⟨key, decl⟩, hmem, rfl⟩ := List.mem_map.mp (List.mem_reverse.mp hdecl)
      have hkey : key = name := (hnames _ hmem).symm.trans (beq_iff_eq.mp hname)
      exact get?_eq_none_iff.mp hget (List.mem_map.mpr ⟨_, hmem, hkey⟩)
  | some decl =>
      have hmem := mem_of_get? hget
      have hvalues : (m.map Prod.snd).map ConstantDecl.name = keys m := by
        rw [List.map_map, keys]
        exact List.map_congr_left hnames
      have hname : decl.name = name := hnames _ hmem
      rw [← hname]
      exact declOf?_of_mem (hvalues ▸ hn) (List.mem_map.mpr ⟨_, hmem, rfl⟩)

/-- The loader has taken up types and declarations, and no constant is being evaluated. -/
structure Holds (loader : Loader) (types : Types) (decls : List ConstantDecl) : Prop where
  types_eq : loader.types = types
  leads : ∀ name, declOf? (loader.declared.map Prod.snd) name = declOf? decls name
  idle : loader.progress.inProgress = []

theorem holds_includingAll (types : Types) (decls : List ConstantDecl) :
    Holds (includingAll { types } decls) types decls := by
  rw [includingAll_eq]
  refine ⟨rfl, fun name => ?_, rfl⟩
  have hnames : ∀ entry ∈ filled ConstantDecl.name id decls, entry.2.name = entry.1 := by
    rintro ⟨key, decl⟩ hmem
    obtain ⟨e, hfind, rfl⟩ := mem_filled_iff.mp hmem
    have hname := List.find?_some hfind
    exact of_decide_eq_true hname
  calc declOf? ((filled ConstantDecl.name id decls).map Prod.snd) name
      = get? name (filled ConstantDecl.name id decls) :=
        declOf?_values (keys_filled_nodup decls) hnames name
    _ = declOf? decls name := by
        rw [get?_filled, Option.map_id_fun, id]
        rfl

/-! ### Values -/

/-- Searches depend on the declarations by what names lead to only. -/
theorem search_congr {types : Types} {decls decls' : List ConstantDecl}
    (h : ∀ name, declOf? decls name = declOf? decls' name) (fuel : Nat) :
    search types decls fuel = search types decls' fuel := by
  induction fuel with
  | zero => rfl
  | succ fuel ih =>
      funext name
      rw [search, search, h, ih]

/-- A search for a constant does not depend on the declarations by more than what names lead to,
nor on how many they are. -/
theorem run_searchFor_congr {types : Types} {decls decls' : List ConstantDecl}
    (h : ∀ name, declOf? decls name = declOf? decls' name) {p : Progress}
    (hp : p.inProgress = []) (name : String) :
    (searchFor types decls name).run p = (searchFor types decls' name).run p := by
  have hfuel : decls.length < decls.length + decls'.length + 1 := by omega
  have hfuel' : decls'.length < decls.length + decls'.length + 1 := by omega
  rw [← run_search_eq hfuel hp, ← run_search_eq hfuel' hp, search_congr h]

variable {types : Types} {decls : List ConstantDecl}

/-- A constant is recorded by a search from what was found before. -/
theorem follows_record (h : Holds loader types decls) (decl : ConstantDecl) :
    Follows (record decl) loader
      (fun entry after here => entry = (decl, here) ∧ after = { loader with
        progress := ((searchFor types decls decl.name).run loader.progress).2 })
      (recorded decl ((searchFor types decls decl.name).run loader.progress).1) := by
  rw [← run_searchFor_congr h.leads h.idle, ← h.types_eq]
  refine .after run_get (.after rfl ((follows_settle _).andThen ?_))
  rintro here _ _ ⟨rfl, rfl⟩
  exact ⟨_, _, rfl, rfl, rfl⟩

theorem Holds.record (h : Holds loader types decls) (decl : ConstantDecl) :
    Holds { loader with
      progress := ((searchFor types decls decl.name).run loader.progress).2 } types decls :=
  ⟨h.types_eq, h.leads, inProgress_run_searchFor h.idle decl.name⟩

theorem follows_records (h : Holds loader types decls) (order : List ConstantDecl) :
    Follows (order.mapM Loader.record) loader
      (fun entries after entries' => entries = entries' ∧ after.types = types)
      (recordAll types decls loader.progress order) := by
  induction order generalizing loader with
  | nil => exact ⟨[], loader, rfl, rfl, h.types_eq⟩
  | cons decl rest ih =>
      rw [List.mapM_cons, recordAll]
      refine (follows_record h decl).bind ?_
      rintro _ _ here ⟨rfl, rfl⟩
      refine (ih (h.record decl)).bind ?_
      rintro entries _ _ ⟨rfl, htypes⟩
      exact ⟨_, _, rfl, rfl, htypes⟩

/-! ### Loads -/

theorem follows_collect (package : String) (files : List (String × SourceFile)) :
    Follows (collect package files) {} (fun table _ table' => table = table')
      (tableOf package files) := by
  rw [collect, tableOf, Types.ofFiles]
  refine (follows_types files).bind ?_
  rintro _ _ types rfl
  refine (follows_constants files).bind ?_
  rintro _ _ decls rfl
  have hordered : (includingAll { types } decls).ordered = decls := by
    rw [includingAll_eq]
    rfl
  have hprogress : (includingAll { types } decls).progress = {} := by
    rw [includingAll_eq]
  have hrecords := follows_records (holds_includingAll types decls) decls
  rw [hprogress] at hrecords
  refine .after run_get ?_
  rw [hordered]
  refine hrecords.bind ?_
  rintro records after _ ⟨rfl, htypes⟩
  refine ⟨_, _, rfl, ?_⟩
  rw [htypes]

/-- **A loader comes to what the sources come to.**  Whatever it holds, it gives the table of the
sources, or stops for the cause for which they have none. -/
theorem run_loadSources (loader : Loader) (sources : Sources) :
    ((loadSources sources).run loader).1 = load sources := by
  have hfollows : Follows (loadSources sources) loader (fun table _ table' => table = table')
      (load sources) := by
    rw [loadSources, load]
    refine .after (run_reset loader) ((follows_settle _).bind ?_)
    rintro files _ _ ⟨rfl, rfl⟩
    refine (follows_settle _).bind ?_
    rintro package _ _ ⟨rfl, rfl⟩
    exact follows_collect package _
  cases hload : load sources with
  | error cause =>
      rw [hload] at hfollows
      obtain ⟨after, hrun⟩ := hfollows
      rw [hrun]
  | ok table =>
      rw [hload] at hfollows
      obtain ⟨table', after, hrun, rfl⟩ := hfollows
      rw [hrun]

/-- The outcomes of loads by one loader are those of the sources. -/
theorem loadEach_eq (loader : Loader) (loads : List Sources) :
    loader.loadEach loads = loads.map load := by
  induction loads generalizing loader with
  | nil => rfl
  | cons sources rest ih =>
      rw [List.map_cons, ← run_loadSources loader sources,
        ← ih ((loadSources sources).run loader).2]
      rfl

/-- **A loader carries nothing from one load to the next.**  Loads by one loader, whatever it holds
and whatever they end in, have the outcomes that the sources have with a fresh loader each, in any
order in which the files are given; and loads that follow leave these outcomes as they are. -/
theorem loadEach_of_perm (loader : Loader) {loads given : List Sources}
    (h : List.Forall₂ (fun sources sources' => sources.Perm sources' ∧ (keys sources).Nodup)
      loads given) :
    loader.loadEach loads = given.map (fun sources => ((loadSources sources).run {}).1) ∧
      ∀ more, loader.loadEach (loads ++ more) =
        loader.loadEach loads ++ more.map (fun sources => ((loadSources sources).run {}).1) := by
  have hfresh : (fun sources => ((loadSources sources).run {}).1) = load :=
    funext (run_loadSources {})
  rw [hfresh]
  refine ⟨?_, fun more => ?_⟩
  · rw [loadEach_eq]
    induction h with
    | nil => rfl
    | cons hsources _ ih =>
        rw [List.map_cons, List.map_cons, load_of_perm hsources.1 hsources.2, ih]
  · rw [loadEach_eq, loadEach_eq, List.map_append]

/-- A package is loaded after another one whose constant of the same name has stopped the load. -/
theorem loadEach_after_largeSource : ∃ table, load twoSources = .ok table ∧
    loadEach {} [[("a.go", largeSource)], twoSources.reverse] =
      [.error (.ofConstant (.fault .outOfRange)), .ok table] := by
  obtain ⟨table, htable⟩ := load_twoSources
  have hlarge : load [("a.go", largeSource)] = .error (.ofConstant (.fault .outOfRange)) := by
    rw [load, parseAll_singleton parse_largeSource rfl, ok_bind]
    rfl
  have hgiven : List.Forall₂
      (fun sources sources' : Sources => sources.Perm sources' ∧ (keys sources).Nodup)
      [[("a.go", largeSource)], twoSources.reverse] [[("a.go", largeSource)], twoSources] :=
    .cons ⟨.refl _, by decide⟩ (.cons ⟨List.reverse_perm _, by decide⟩ .nil)
  refine ⟨table, htable, (loadEach_of_perm {} hgiven).1.trans ?_⟩
  rw [List.map_cons, List.map_cons, List.map_nil, run_loadSources, run_loadSources, hlarge, htable]

end EnumHelpers.Package.Loader
