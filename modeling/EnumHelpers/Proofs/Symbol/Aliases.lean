import EnumHelpers.Proofs.Enum.Enumeration
import Mathlib.Data.List.Perm.Subperm
import Mathlib.Logic.Relation

/-!
# Proofs — aliases

What a name stands for is found by following aliases from it.  The walk stops at a name that is no
alias, and at one that it has met before (`Leads`), so it ends however the aliases are declared: the
names met on it are distinct and declared, and there are no more of them than declarations.  Where
it ends, a walk that begins there ends too, even inside a cycle.

Without cycles, and with no name declared in two ways, a name stands for the one at the end of its
chain of aliases.  Two names then stand for the same type if and only if declarations of aliases
connect them, in whatever directions.  So the names of one class have the same constants and those
of two classes have none in common.

* `Named.leads_canonical`: the walk ends, and what it ends at is what the name stands for.
* `Leads.leads_target`: a walk that begins where a walk ended ends there.
* `canonicalName_eq_iff`: the names that stand for one type.
* `canonical_of_aliases`: the classes of names, and the constants of each.
-/

namespace EnumHelpers

namespace SymbolTable
open Relation

variable {t : SymbolTable}

/-! ### Following aliases -/

/-- The name that a name is an alias of; of several declarations of a name the last one counts. -/
def aliasOf? (t : SymbolTable) (name : String) : Option String :=
  match t.handle? (.str name) with
  | some ⟨_, .str next⟩ => some next
  | _ => none

/-- A name is an alias of another one. -/
def IsAliasOf (t : SymbolTable) (name next : String) : Prop := t.aliasOf? name = some next

/-- Following aliases from a name ends at a target, when the names in `seen` have been met. -/
inductive Leads (t : SymbolTable) : List String → String → String → Prop
  | stop {seen : List String} {name : String} (h : t.aliasOf? name = none ∨ name ∈ seen) :
      Leads t seen name name
  | follow {seen : List String} {name next target : String} (ha : t.aliasOf? name = some next)
      (hn : name ∉ seen) (h : Leads t (name :: seen) next target) : Leads t seen name target

theorem Named.canonicalFrom_succ (ht : t.Named) (fuel : Nat) (seen : List String) (name : String) :
    t.canonicalFrom (fuel + 1) (seen.map .str) (.str name) =
      match t.aliasOf? name with
      | none => .ok (.str name)
      | some next =>
        if name ∈ seen then .ok (.str name)
        else t.canonicalFrom fuel ((name :: seen).map .str) (.str next) := by
  have hseen : (seen.map Json.str).any (·.same (.str name)) = decide (name ∈ seen) := by
    simp [Json.same_str, List.any_map, Function.comp_def, List.any_beq']
  rw [SymbolTable.canonicalFrom, aliasOf?, isNull_str, hseen]
  simp only [Json.isKey, Bool.not_true, Bool.false_eq_true, if_false]
  cases hh : t.handle? (.str name) with
  | none => rfl
  | some h =>
      obtain ⟨-, ha | ⟨next, ha⟩⟩ := ht.types h (Enum.mem_of_handleIn? hh).1
      · obtain ⟨own, _⟩ := h
        cases ha
        rfl
      · obtain ⟨own, _⟩ := h
        cases ha
        by_cases hm : name ∈ seen <;> simp [hm, isNull]

/-- Distinct aliases are no more than the declarations. -/
theorem length_le_of_nodup {seen : List String} (hn : seen.Nodup)
    (hs : ∀ s ∈ seen, t.aliasOf? s ≠ none) : seen.length ≤ t.types.length := by
  have hsub : seen.map Json.str ⊆ t.types.map TypeHandle.name := by
    intro name hname
    obtain ⟨s, hmem, rfl⟩ := List.mem_map.mp hname
    cases hh : t.handle? (.str s) with
    | none => exact absurd (by rw [aliasOf?, hh]) (hs s hmem)
    | some h =>
        obtain ⟨hm, hsame⟩ := Enum.mem_of_handleIn? hh
        exact List.mem_map.mpr ⟨h, hm, Enum.eq_of_same_str hsame⟩
  have hnodup : (seen.map Json.str).Nodup := hn.map fun _ _ => Json.str.inj
  simpa using (List.subperm_of_subset hnodup hsub).length_le

/-- With more steps to take than aliases are left to meet, the walk ends. -/
theorem Named.leads_canonicalFrom (ht : t.Named) (fuel : Nat) (name : String) {seen : List String}
    (hn : seen.Nodup) (hs : ∀ s ∈ seen, t.aliasOf? s ≠ none)
    (hfuel : t.types.length < fuel + seen.length) :
    ∃ target, t.canonicalFrom fuel (seen.map .str) (.str name) = .ok (.str target) ∧
      t.Leads seen name target := by
  induction fuel generalizing seen name with
  | zero =>
      have := length_le_of_nodup hn hs
      omega
  | succ fuel ih =>
      rw [ht.canonicalFrom_succ]
      cases ha : t.aliasOf? name with
      | none => exact ⟨name, rfl, .stop (.inl ha)⟩
      | some next =>
          by_cases hm : name ∈ seen
          · exact ⟨name, by simp [hm], .stop (.inr hm)⟩
          · have hs' : ∀ s ∈ name :: seen, t.aliasOf? s ≠ none :=
              List.forall_mem_cons.mpr ⟨by simp [ha], hs⟩
            obtain ⟨target, htarget, hleads⟩ := ih next (hn.cons hm) hs' (by simp; omega)
            exact ⟨target, by simp only [hm, if_false, htarget], .follow ha hm hleads⟩

/-- **Following aliases ends**, and a name stands for what it ends at. -/
theorem Named.leads_canonical (ht : t.Named) (name : String) :
    t.Leads [] name (t.canonicalName name) := by
  obtain ⟨target, htarget, hleads⟩ :=
    ht.leads_canonicalFrom (t.types.length + 1) name List.nodup_nil (by simp) (by simp)
  have heq : t.canonical (.str name) = .ok (.str target) := htarget
  rw [ht.canonical_eq, Except.ok.injEq, Json.str.injEq] at heq
  exact heq ▸ hleads

namespace Leads

variable {seen seen' : List String} {name target target' : String}

theorem unique (h : t.Leads seen name target) (h' : t.Leads seen name target') :
    target = target' := by
  induction h with
  | stop hstop =>
      cases h' with
      | stop => rfl
      | follow ha hn => simp [ha, hn] at hstop
  | follow ha hn _ ih =>
      cases h' with
      | stop hstop => simp [ha, hn] at hstop
      | follow ha' _ h' =>
          rw [ha, Option.some.injEq] at ha'
          exact ih (ha' ▸ h')

/-- Names that a walk does not end at need not have been met. -/
theorem forget (h : t.Leads seen name target) (hsub : seen' ⊆ seen)
    (htarget : target ∈ seen → target ∈ seen') : t.Leads seen' name target := by
  induction h generalizing seen' with
  | stop hstop => exact .stop (hstop.imp_right htarget)
  | @follow seen name next target ha hn _ ih =>
      refine .follow ha (fun hm => hn (hsub hm)) (ih (List.cons_subset_cons name hsub) ?_)
      intro hm
      rcases List.mem_cons.mp hm with rfl | hm
      · exact List.mem_cons_self
      · exact List.mem_cons_of_mem _ (htarget hm)

/-- A walk comes through the name that it ends at a first time. -/
theorem exists_first (h : t.Leads seen name target) (hn : target ∉ seen) :
    ∃ seen', target ∉ seen' ∧ t.Leads seen' target target := by
  induction h with
  | @stop seen name hstop => exact ⟨seen, hn, .stop hstop⟩
  | @follow seen name next target ha hname hleads ih =>
      by_cases he : target = name
      · exact ⟨seen, hn, .follow (he ▸ ha) hn (he ▸ hleads)⟩
      · exact ih (by simp [he, hn])

/-- A walk that begins where a walk ended ends there. -/
theorem leads_target (h : t.Leads [] name target) : t.Leads [] target target := by
  obtain ⟨seen, hn, hleads⟩ := h.exists_first List.not_mem_nil
  exact hleads.forget (List.nil_subset _) fun hm => absurd hm hn

/-- A walk goes along aliases, to a name that is none or lies on a cycle. -/
theorem chain (h : t.Leads seen name target)
    (hseen : ∀ s ∈ seen, TransGen t.IsAliasOf s name) :
    ReflTransGen t.IsAliasOf name target ∧
      (t.aliasOf? target = none ∨ TransGen t.IsAliasOf target target) := by
  induction h with
  | stop hstop => exact ⟨.refl, hstop.imp_right (hseen _)⟩
  | @follow seen name next target ha _ _ ih =>
      obtain ⟨hchain, hend⟩ := ih (List.forall_mem_cons.mpr
        ⟨.single ha, fun s hs => (hseen s hs).tail ha⟩)
      exact ⟨.head ha hchain, hend⟩

end Leads

/-- What a name stands for stands for itself. -/
theorem Named.canonicalName_idem (ht : t.Named) (name : String) :
    t.canonicalName (t.canonicalName name) = t.canonicalName name :=
  (ht.leads_canonical _).unique (ht.leads_canonical name).leads_target

/-! ### Classes of names -/

/-- No name leads back to itself. -/
def Acyclic (t : SymbolTable) : Prop := ∀ name, ¬ TransGen t.IsAliasOf name name

/-- Without cycles a name stands for the end of its chain of aliases. -/
theorem Named.chain_canonicalName (ht : t.Named) (hacyclic : t.Acyclic) (name : String) :
    ReflTransGen t.IsAliasOf name (t.canonicalName name) ∧
      t.aliasOf? (t.canonicalName name) = none := by
  obtain ⟨hchain, hend⟩ := (ht.leads_canonical name).chain (by simp)
  exact ⟨hchain, hend.resolve_right (hacyclic _)⟩

theorem eq_of_chain {name target : String} (hname : t.aliasOf? name = none)
    (h : ReflTransGen t.IsAliasOf name target) : name = target := by
  rcases h.cases_head with rfl | ⟨next, hnext, -⟩
  · rfl
  · rw [IsAliasOf, hname] at hnext
    cases hnext

/-- A chain of aliases has one end. -/
theorem Named.canonicalName_eq (ht : t.Named) (hacyclic : t.Acyclic) {name target : String}
    (h : ReflTransGen t.IsAliasOf name target) (htarget : t.aliasOf? target = none) :
    t.canonicalName name = target := by
  obtain ⟨hchain, hend⟩ := ht.chain_canonicalName hacyclic name
  have hunique : Relator.RightUnique t.IsAliasOf := fun a b c hb hc =>
    Option.some.inj (hb.symm.trans hc)
  rcases ReflTransGen.total_of_right_unique hunique hchain h with h | h
  · exact eq_of_chain hend h
  · exact (eq_of_chain htarget h).symm

/-- Without cycles names stand for one type if and only if aliases connect them. -/
theorem Named.canonicalName_eq_iff (ht : t.Named) (hacyclic : t.Acyclic) {a b : String} :
    t.canonicalName a = t.canonicalName b ↔ EqvGen t.IsAliasOf a b := by
  constructor
  · intro h
    have hchain : ∀ name, EqvGen t.IsAliasOf name (t.canonicalName name) := fun name =>
      EqvGen.reflTransGen_le_eqvGen _ _ _ (ht.chain_canonicalName hacyclic name).1
    exact .trans _ _ _ (hchain a) (h ▸ .symm _ _ (hchain b))
  · intro h
    induction h with
    | rel a b hab =>
        obtain ⟨hchain, hend⟩ := ht.chain_canonicalName hacyclic b
        exact ht.canonicalName_eq hacyclic (.head hab hchain) hend
    | refl => rfl
    | symm _ _ _ ih => exact ih.symm
    | trans _ _ _ _ _ hab hbc => exact hab.trans hbc

/-- A name is declared as an alias of another one. -/
def DeclaresAlias (t : SymbolTable) (name next : String) : Prop :=
  ∃ h ∈ t.types, h.name = .str name ∧ h.aliasOf = .str next

/-- A name is declared as a type of its own. -/
def Defines (t : SymbolTable) (name : String) : Prop :=
  ∃ h ∈ t.types, h.name = .str name ∧ h.aliasOf = .null

/-- No name is declared in two ways. -/
def DistinctNames (t : SymbolTable) : Prop :=
  ∀ h ∈ t.types, ∀ h' ∈ t.types, h.name = h'.name → h = h'

/-- Where no name is declared in two ways, a declared type is the one that is found. -/
theorem handle?_eq_some (hdistinct : t.DistinctNames) {h : TypeHandle} (hm : h ∈ t.types)
    {name : String} (hname : h.name = .str name) : t.handle? (.str name) = some h := by
  obtain ⟨h', hh⟩ := Option.isSome_iff_exists.mp (isSome_handleIn?.mpr ⟨h, hm, hname⟩)
  obtain ⟨hm', hsame⟩ := Enum.mem_of_handleIn? hh
  have heq : h' = h := hdistinct h' hm' h hm ((Enum.eq_of_same_str hsame).trans hname.symm)
  rw [handle?, hh, heq]

theorem isAliasOf_iff (hdistinct : t.DistinctNames) {name next : String} :
    t.IsAliasOf name next ↔ t.DeclaresAlias name next := by
  constructor
  · intro h
    rw [IsAliasOf, aliasOf?] at h
    split at h
    · rename_i own next' hh
      obtain ⟨hm, hsame⟩ := Enum.mem_of_handleIn? hh
      cases h
      exact ⟨_, hm, Enum.eq_of_same_str hsame, rfl⟩
    · cases h
  · rintro ⟨⟨own, _⟩, hm, hname, rfl⟩
    rw [IsAliasOf, aliasOf?, handle?_eq_some hdistinct hm hname]

theorem aliasOf?_of_defines (hdistinct : t.DistinctNames) {name : String} (h : t.Defines name) :
    t.aliasOf? name = none := by
  obtain ⟨⟨own, _⟩, hm, hname, rfl⟩ := h
  rw [aliasOf?, handle?_eq_some hdistinct hm hname]

end SymbolTable

namespace Enum
open SymbolTable ConstantRecord Relation

variable {t : SymbolTable}

/-- Names that stand for one type have the same constants, or each is refused for having none. -/
theorem constants_of_canonicalName_eq (ht : t.Named) {a b : String} (ha : t.Declares a)
    (hb : t.Declares b) (h : t.canonicalName a = t.canonicalName b) :
    (∃ rs, constants t a = .ok rs ∧ constants t b = .ok rs) ∨
      (constants t a = .error (.noConstants a) ∧ constants t b = .error (.noConstants b)) := by
  have hrecords : recordsWith t a = recordsWith t b := by
    rw [recordsWith, recordsWith, ht.canonical_eq, ht.canonical_eq, h]
  rcases constants_cases ht a with ⟨hn, -⟩ | ⟨-, hnil, hca⟩ | ⟨-, hne, hca⟩
  · exact absurd ha hn
  · rcases constants_cases ht b with ⟨hn, -⟩ | ⟨-, -, hcb⟩ | ⟨-, hne, -⟩
    · exact absurd hb hn
    · exact .inr ⟨hca, hcb⟩
    · exact absurd (hrecords ▸ hnil) hne
  · exact .inl ⟨_, hca, (constants_eq_ok_iff ht).mpr ⟨hb, hrecords ▸ hne, hrecords⟩⟩

/-- Names that have a constant in common stand for one type. -/
theorem canonicalName_eq_of_mem (ht : t.Named) {a b : String} {rs rs' : List ConstantRecord}
    (ha : constants t a = .ok rs) (hb : constants t b = .ok rs') {r : ConstantRecord}
    (hr : r ∈ rs) (hr' : r ∈ rs') : t.canonicalName a = t.canonicalName b := by
  have hbelongs : ∀ {name found}, constants t name = .ok found → r ∈ found →
      belongs t name r = true := by
    intro name found hfound hmem
    obtain ⟨-, -, rfl⟩ := (constants_eq_ok_iff ht).mp hfound
    exact (List.mem_filter.mp (recordsWith_eq ht name ▸ hmem)).2
  have ha := hbelongs ha hr
  have hb := hbelongs hb hr'
  rw [belongs] at ha hb
  cases htype : r.type with
  | str owner =>
      rw [htype] at ha hb
      simp only [beq_iff_eq] at ha hb
      exact ha.symm.trans hb
  | _ => simp [htype] at ha

/-- **What names stand for.**  However aliases are declared, following them from a name ends, and
what the name stands for stands for itself.  Where aliases have no cycle and no name is declared in
two ways, two names stand for one type if and only if declarations of aliases connect them; then
they have the same constants, or neither has any.  Names that are not connected have no constant in
common, and two types of their own are never connected. -/
theorem canonical_of_aliases (ht : t.Named) :
    (∀ name, ∃ target, t.canonical (.str name) = .ok (.str target) ∧ t.Leads [] name target ∧
      t.canonical (.str target) = .ok (.str target)) ∧
    ((∀ name, ¬ TransGen t.DeclaresAlias name name) → t.DistinctNames →
      (∀ a b, t.canonical (.str a) = t.canonical (.str b) ↔ EqvGen t.DeclaresAlias a b) ∧
      (∀ a b, t.Declares a → t.Declares b → EqvGen t.DeclaresAlias a b →
        (∃ rs, constants t a = .ok rs ∧ constants t b = .ok rs) ∨
          (constants t a = .error (.noConstants a) ∧ constants t b = .error (.noConstants b))) ∧
      (∀ a b rs rs', constants t a = .ok rs → constants t b = .ok rs' →
        ∀ r ∈ rs, r ∈ rs' → EqvGen t.DeclaresAlias a b) ∧
      ∀ a b, t.Defines a → t.Defines b → EqvGen t.DeclaresAlias a b → a = b) := by
  constructor
  · intro name
    refine ⟨t.canonicalName name, ht.canonical_eq name, ht.leads_canonical name, ?_⟩
    rw [ht.canonical_eq, ht.canonicalName_idem]
  · intro hacyclic hdistinct
    have halias : t.DeclaresAlias = t.IsAliasOf := by
      funext name next
      exact propext (isAliasOf_iff hdistinct).symm
    rw [halias] at hacyclic ⊢
    have hclass : ∀ a b, t.canonicalName a = t.canonicalName b ↔ EqvGen t.IsAliasOf a b :=
      fun a b => ht.canonicalName_eq_iff hacyclic
    refine ⟨fun a b => ?_, fun a b ha hb h => ?_, fun a b rs rs' ha hb r hr hr' => ?_,
      fun a b ha hb h => ?_⟩
    · rw [ht.canonical_eq, ht.canonical_eq, ← hclass, Except.ok.injEq, Json.str.injEq]
    · exact constants_of_canonicalName_eq ht ha hb ((hclass a b).mpr h)
    · exact (hclass a b).mp (canonicalName_eq_of_mem ht ha hb hr hr')
    · have hself : ∀ name, t.Defines name → t.canonicalName name = name := fun name hname =>
        ht.canonicalName_eq hacyclic .refl (aliasOf?_of_defines hdistinct hname)
      rw [← hself a ha, ← hself b hb]
      exact (hclass a b).mpr h

/-- A type with an alias and an alias of that alias, under which its one constant is declared, and
another type. -/
def chainTable : SymbolTable where
  package := .str "p"
  types := [⟨.str "T", .null⟩, ⟨.str "U", .str "T"⟩, ⟨.str "V", .str "U"⟩, ⟨.str "W", .null⟩]
  constants := [⟨.str "A", .str "V", .exact (.whole 1), .str "a.go", .int 0, .null⟩]

theorem named_chainTable : chainTable.Named := by
  refine ⟨⟨_, rfl⟩, ?_, ?_, ?_, ?_, ?_⟩ <;> simp [chainTable]

theorem declaresAlias_chainTable {name next : String} :
    chainTable.DeclaresAlias name next ↔ name = "U" ∧ next = "T" ∨ name = "V" ∧ next = "U" := by
  simp [DeclaresAlias, chainTable, eq_comm]

theorem acyclic_chainTable (name : String) : ¬ TransGen chainTable.DeclaresAlias name name := by
  let height : String → Nat := fun name => if name = "V" then 2 else if name = "U" then 1 else 0
  have hdown : ∀ {a b}, TransGen chainTable.DeclaresAlias a b → height b < height a := by
    intro a b h
    induction h with
    | single hab =>
        rcases declaresAlias_chainTable.mp hab with ⟨rfl, rfl⟩ | ⟨rfl, rfl⟩ <;> decide
    | tail _ hbc ih =>
        refine Nat.lt_trans ?_ ih
        rcases declaresAlias_chainTable.mp hbc with ⟨rfl, rfl⟩ | ⟨rfl, rfl⟩ <;> decide
  exact fun h => Nat.lt_irrefl _ (hdown h)

theorem distinctNames_chainTable : chainTable.DistinctNames := by
  simp [DistinctNames, chainTable]

/-- The alias of the alias stands for the type and has its constant; the other type is apart. -/
theorem canonical_of_chainTable : chainTable.Named ∧
    (∀ name, ¬ TransGen chainTable.DeclaresAlias name name) ∧ chainTable.DistinctNames ∧
    chainTable.canonical (.str "V") = chainTable.canonical (.str "T") ∧
    (∃ rs, constants chainTable "T" = .ok rs ∧ constants chainTable "V" = .ok rs) ∧
    ¬ EqvGen chainTable.DeclaresAlias "T" "W" := by
  have ht := named_chainTable
  obtain ⟨-, hclasses⟩ := canonical_of_aliases ht
  obtain ⟨hclass, hsame, -, hapart⟩ := hclasses acyclic_chainTable distinctNames_chainTable
  have hVU : chainTable.DeclaresAlias "V" "U" := declaresAlias_chainTable.mpr (by simp)
  have hUT : chainTable.DeclaresAlias "U" "T" := declaresAlias_chainTable.mpr (by simp)
  have hVT : EqvGen chainTable.DeclaresAlias "V" "T" :=
    .trans _ _ _ (.rel _ _ hVU) (.rel _ _ hUT)
  have hcanonical := (hclass "V" "T").mpr hVT
  have hT : chainTable.Declares "T" := ⟨_, List.mem_cons_self, rfl⟩
  have hV : chainTable.Declares "V" := ⟨⟨.str "V", .str "U"⟩, by simp [chainTable], rfl⟩
  refine ⟨ht, acyclic_chainTable, distinctNames_chainTable, hcanonical, ?_, fun h => ?_⟩
  · refine (hsame "T" "V" hT hV (.symm _ _ hVT)).resolve_right fun hnone => ?_
    -- the record declared under the alias of the alias belongs to the type
    have hempty := ((noneFound_constants_iff ht).mp ⟨_, hnone.2⟩).2
    rw [recordsWith_eq ht, List.filter_eq_nil_iff] at hempty
    exact hempty ⟨.str "A", .str "V", .exact (.whole 1), .str "a.go", .int 0, .null⟩
      ((perm_byPlace _).mem_iff.mpr List.mem_cons_self) (by simp [belongs])
  · have hW : chainTable.Defines "W" := ⟨⟨.str "W", .null⟩, by simp [chainTable], rfl, rfl⟩
    have heq := hapart "T" "W" ⟨⟨.str "T", .null⟩, by simp [chainTable], rfl, rfl⟩ hW h
    exact absurd heq (by decide)

end Enum
end EnumHelpers
