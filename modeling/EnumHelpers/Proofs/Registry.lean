import EnumHelpers.Proofs.OrderedMap
import EnumHelpers.Proofs.Outcome
import EnumHelpers.Registry
import Mathlib.Data.List.Induction

/-!
# Proofs — registries of languages

A registry is what registrations, one after another, have made of an empty one.  A registration
changes nothing, or enters a generator and a loader together for one language and lets further
names stand for that language only (`enter_cases`); this is so however it ends, also when it fails
on one of its further names.  So every language has a generator and a loader, both from one and the
same registration, and every further name leads to a language.

* `languages_of_registrations`: what a name is answered with, after any registrations.
* `unchanged_iff_of_refused`: which registrations that fail leave a registry as it was, and what the
  others leave.
-/

namespace EnumHelpers.Registry
open OrderedMap

variable {Generator Loader : Type}

/-! ### Registrations -/

/-- What is asked for by a registration. -/
structure Registration (Generator Loader : Type) where
  language : String
  /-- The generator; none when what is offered is no generator. -/
  generator : Option Generator
  loader : Loader
  aliases : List String := []
  replace : Bool := false

/-- The name under which the language of a registration is entered. -/
def Registration.key (c : Registration Generator Loader) : String := Text.lower c.language

/-- The registry after a registration, however that has ended. -/
def enter (r : Registry Generator Loader) (c : Registration Generator Loader) :
    Registry Generator Loader :=
  (r.register c.language c.generator c.loader c.aliases c.replace).1

/-- The registry after registrations in order. -/
def ofRegistrations (calls : List (Registration Generator Loader)) : Registry Generator Loader :=
  calls.foldl enter {}

variable {r : Registry Generator Loader} {c : Registration Generator Loader}

/-- Further names are entered for the given language, and nothing else is changed. -/
theorem enterAliases_spec (language : String) (replace : Bool) (r : Registry Generator Loader)
    (names : List String) :
    (enterAliases language replace r names).1.generators = r.generators ∧
      (enterAliases language replace r names).1.loaders = r.loaders ∧
      ∀ entry ∈ (enterAliases language replace r names).1.aliases,
        entry.2 = language ∨ entry ∈ r.aliases := by
  induction names generalizing r with
  | nil => exact ⟨rfl, rfl, fun entry h => .inr h⟩
  | cons name rest ih =>
      rw [enterAliases]
      split
      · exact ih r
      · split
        · exact ⟨rfl, rfl, fun entry h => .inr h⟩
        · obtain ⟨hgenerators, hloaders, haliases⟩ :=
            ih { r with aliases := put (Text.lower name) language r.aliases }
          refine ⟨hgenerators, hloaders, fun entry h => ?_⟩
          rcases haliases entry h with hlanguage | hmem
          · exact .inl hlanguage
          · rcases mem_put hmem with rfl | hmem
            · exact .inl rfl
            · exact .inr hmem

/-- The registry with the pair of a registration entered, and none of its further names yet. -/
def opened (r : Registry Generator Loader) (c : Registration Generator Loader)
    (generator : Generator) : Registry Generator Loader :=
  { r with
    generators := put c.key generator r.generators
    loaders := put c.key c.loader r.loaders }

/-- What offers a generator for a language that is there is passed over, unless it replaces. -/
theorem register_kept {generator : Generator} (hc : c.generator = some generator)
    (hthere : c.key ∈ keys r.generators) (hkept : c.replace = false) :
    r.register c.language c.generator c.loader c.aliases c.replace = (r, .ok ()) := by
  rw [hc, register]
  refine if_pos ?_
  rw [Bool.and_eq_true, Bool.not_eq_true', has_iff_mem_keys]
  exact ⟨hthere, hkept⟩

/-- A registration that is admitted enters its pair first, and then its further names. -/
theorem register_opened {generator : Generator} (hc : c.generator = some generator)
    (hadmitted : c.key ∉ keys r.generators ∨ c.replace = true) :
    r.register c.language c.generator c.loader c.aliases c.replace =
      enterAliases c.key c.replace (r.opened c generator) c.aliases := by
  rw [hc, register]
  refine if_neg ?_
  rw [Bool.and_eq_true, Bool.not_eq_true', has_iff_mem_keys, not_and_or, Bool.not_eq_false]
  exact hadmitted

/-- A registration enters its generator and its loader, and further names for its language. -/
structure Enters (r : Registry Generator Loader) (c : Registration Generator Loader)
    (generator : Generator) : Prop where
  offered : c.generator = some generator
  admitted : c.key ∉ keys r.generators ∨ c.replace = true
  generators : (r.enter c).generators = put c.key generator r.generators
  loaders : (r.enter c).loaders = put c.key c.loader r.loaders
  aliases : ∀ entry ∈ (r.enter c).aliases, entry.2 = c.key ∨ entry ∈ r.aliases

/-- **What a registration does.**  It changes nothing when it offers no generator, or when the
language is there already and is not to be replaced; otherwise it enters what it offers. -/
theorem enter_cases (r : Registry Generator Loader) (c : Registration Generator Loader) :
    (r.enter c = r ∧
        (c.generator = none ∨ c.key ∈ keys r.generators ∧ c.replace = false)) ∨
      ∃ generator, Enters r c generator := by
  cases hc : c.generator with
  | none => exact .inl ⟨by rw [enter, hc, register], .inl rfl⟩
  | some generator =>
      by_cases hkept : c.key ∈ keys r.generators ∧ c.replace = false
      · exact .inl ⟨by rw [enter, register_kept hc hkept.1 hkept.2], .inr hkept⟩
      · rw [not_and_or, Bool.not_eq_false] at hkept
        obtain ⟨hgenerators, hloaders, haliases⟩ :=
          enterAliases_spec c.key c.replace (r.opened c generator) c.aliases
        rw [← congrArg Prod.fst (register_opened hc hkept)] at hgenerators hloaders haliases
        exact .inr ⟨generator, hc, hkept, hgenerators, hloaders, haliases⟩

/-! ### What stands after registrations -/

/-- The pair that stands for a language is that of one registration: the first for the language, or
one that replaces, with none after it that replaces. -/
def Standing (calls : List (Registration Generator Loader)) (language : String)
    (generator : Generator) (loader : Loader) : Prop :=
  ∃ before c after, calls = before ++ c :: after ∧ c.key = language ∧
    c.generator = some generator ∧ c.loader = loader ∧
    (c.replace = true ∨ ∀ d ∈ before, d.key = language → d.generator = none) ∧
    ∀ d ∈ after, d.key = language → d.generator = none ∨ d.replace = false

theorem Standing.concat {calls : List (Registration Generator Loader)} {language : String}
    {generator : Generator} {loader : Loader} (h : Standing calls language generator loader)
    (hc : c.key = language → c.generator = none ∨ c.replace = false) :
    Standing (calls ++ [c]) language generator loader := by
  obtain ⟨before, d, after, rfl, hkey, hgenerator, hloader, hbefore, hafter⟩ := h
  refine ⟨before, d, after ++ [c], by simp, hkey, hgenerator, hloader, hbefore, ?_⟩
  rw [List.forall_mem_append, List.forall_mem_singleton]
  exact ⟨hafter, hc⟩

/-- The languages of a registry are those that a generator was offered for, each has the pair that
stands for it, and further names stand for languages. -/
structure Consistent (r : Registry Generator Loader)
    (calls : List (Registration Generator Loader)) : Prop where
  keys_loaders : keys r.loaders = keys r.generators
  offered : ∀ d ∈ calls, d.key ∉ keys r.generators → d.generator = none
  standing : ∀ language generator loader, get? language r.generators = some generator →
    get? language r.loaders = some loader → Standing calls language generator loader
  aliases : ∀ entry ∈ r.aliases, entry.2 ∈ keys r.generators

theorem consistent_empty : Consistent ({} : Registry Generator Loader) [] where
  keys_loaders := rfl
  offered := nofun
  standing := nofun
  aliases := nofun

/-- What holds of a registry holds of it after one more registration. -/
theorem Consistent.enter {calls : List (Registration Generator Loader)} (h : Consistent r calls)
    (c : Registration Generator Loader) : Consistent (r.enter c) (calls ++ [c]) := by
  rcases enter_cases r c with ⟨hsame, hc⟩ | ⟨generator, hc⟩
  · rw [hsame]
    refine ⟨h.keys_loaders, ?_, fun language generator loader hg hl => ?_, h.aliases⟩
    · rw [List.forall_mem_append, List.forall_mem_singleton]
      exact ⟨h.offered, fun hkey => hc.resolve_right fun hmem => hkey hmem.1⟩
    · exact (h.standing language generator loader hg hl).concat fun _ => hc.imp_right And.right
  · have hmem : ∀ language, language ∈ keys (r.enter c).generators ↔
        language = c.key ∨ language ∈ keys r.generators := by
      intro language
      rw [hc.generators, mem_keys_put]
    refine ⟨?_, ?_, fun language generator' loader hg hl => ?_, fun entry hentry => ?_⟩
    · rw [hc.generators, hc.loaders, keys_put, keys_put, h.keys_loaders]
    · rw [List.forall_mem_append, List.forall_mem_singleton]
      exact ⟨fun d hd hkey => h.offered d hd fun hold => hkey ((hmem _).mpr (.inr hold)),
        fun hkey => absurd ((hmem _).mpr (.inl rfl)) hkey⟩
    · rw [hc.generators, get?_put] at hg
      rw [hc.loaders, get?_put] at hl
      by_cases hkey : c.key = language
      · rw [if_pos hkey, Option.some.injEq] at hg hl
        subst hg hl
        refine ⟨calls, c, [], rfl, hkey, hc.offered, rfl, ?_, nofun⟩
        -- a language that is new was offered no generator before
        exact hc.admitted.symm.imp_right fun hnew d hd hd' =>
          h.offered d hd (hd'.trans hkey.symm ▸ hnew)
      · rw [if_neg hkey] at hg hl
        exact (h.standing language generator' loader hg hl).concat fun e => absurd e hkey
    · rw [hmem]
      exact (hc.aliases entry hentry).imp_right fun hold => h.aliases entry hold

/-- **After any registrations** a registry is consistent. -/
theorem consistent_ofRegistrations (calls : List (Registration Generator Loader)) :
    Consistent (ofRegistrations calls) calls := by
  induction calls using List.reverseRecOn with
  | nil => exact consistent_empty
  | append_singleton calls c ih =>
      rw [ofRegistrations, List.foldl_append]
      exact ih.enter c

/-! ### What a name leads to -/

variable {name : String}

theorem isSupported_iff : r.isSupported name = true ↔
    Text.lower name ∈ keys r.generators ∨ Text.lower name ∈ keys r.aliases := by
  rw [isSupported, Bool.or_eq_true, has_iff_mem_keys, has_iff_mem_keys]

/-- The name of a language is resolved to the language, before any further name. -/
theorem resolve_of_mem (h : Text.lower name ∈ keys r.generators) :
    r.resolve name = .ok (Text.lower name) :=
  if_pos (has_iff_mem_keys.mpr h)

theorem resolve_of_not_isSupported (h : r.isSupported name = false) :
    r.resolve name = .error (r.unknown name) := by
  rw [← Bool.not_eq_true, isSupported_iff, not_or] at h
  rw [resolve, if_neg (mt has_iff_mem_keys.mp h.1), get?_eq_none_iff.mpr h.2]

theorem exists_get? {β : Type} {key : String} {m : OrderedMap String β} (h : key ∈ keys m) :
    ∃ value, get? key m = some value :=
  Option.isSome_iff_exists.mp (has_iff_mem_keys.mpr h)

variable {calls : List (Registration Generator Loader)}

/-- A name that is known is resolved to a language, with a generator and a loader. -/
theorem Consistent.resolve (h : Consistent r calls) (hname : r.isSupported name = true) :
    ∃ language generator loader, r.resolve name = .ok language ∧
      get? language r.generators = some generator ∧ get? language r.loaders = some loader := by
  have hresolve : ∃ language ∈ keys r.generators, r.resolve name = .ok language := by
    by_cases hmem : Text.lower name ∈ keys r.generators
    · exact ⟨_, hmem, resolve_of_mem hmem⟩
    · obtain ⟨language, halias⟩ := exists_get? ((isSupported_iff.mp hname).resolve_left hmem)
      refine ⟨language, h.aliases _ (mem_of_get? halias), ?_⟩
      rw [Registry.resolve, if_neg (mt has_iff_mem_keys.mp hmem), halias]
  obtain ⟨language, hmem, hlanguage⟩ := hresolve
  obtain ⟨generator, hgenerator⟩ := exists_get? hmem
  obtain ⟨loader, hloader⟩ := exists_get? (h.keys_loaders ▸ hmem)
  exact ⟨language, generator, loader, hlanguage, hgenerator, hloader⟩

/-- A name is resolved without regard to case. -/
theorem resolve_of_lower {other : String} (h : Text.lower other = Text.lower name)
    {language : String} : r.resolve other = .ok language ↔ r.resolve name = .ok language := by
  rw [resolve, resolve, h]
  split
  · rfl
  · split
    · rfl
    · constructor
      · rintro ⟨⟩
      · rintro ⟨⟩

/-- **What a registry answers.**  After any registrations, failed ones included: every language has
a generator and a loader, which one registration has given together; a further name stands for a
language.  A name, in any letter case, is supported if and only if it has a generator and a loader;
both are then those of the one language that it is resolved to, which is the name itself if that is
a language.  Any other name is refused as not registered. -/
theorem languages_of_registrations (calls : List (Registration Generator Loader)) :
    keys (ofRegistrations calls).loaders = keys (ofRegistrations calls).generators ∧
    (∀ language ∈ keys (ofRegistrations calls).generators, ∃ generator loader,
      get? language (ofRegistrations calls).generators = some generator ∧
      get? language (ofRegistrations calls).loaders = some loader ∧
      Standing calls language generator loader) ∧
    (∀ entry ∈ (ofRegistrations calls).aliases,
      entry.2 ∈ keys (ofRegistrations calls).generators) ∧
    ∀ name,
      ((ofRegistrations calls).isSupported name = true ↔
        (∃ generator, (ofRegistrations calls).generator name = .ok generator) ∧
          ∃ loader, (ofRegistrations calls).loader name = .ok loader) ∧
      ((ofRegistrations calls).isSupported name = true → ∃ language generator loader,
        (ofRegistrations calls).resolve name = .ok language ∧
        (ofRegistrations calls).generator name = .ok generator ∧
        (ofRegistrations calls).loader name = .ok loader ∧
        Standing calls language generator loader) ∧
      ((ofRegistrations calls).isSupported name = false →
        (ofRegistrations calls).generator name = .error
            (.registry (.notRegistered name (ofRegistrations calls).languages)) ∧
          (ofRegistrations calls).loader name = .error
            (.registry (.notRegistered name (ofRegistrations calls).languages))) ∧
      (Text.lower name ∈ keys (ofRegistrations calls).generators →
        (ofRegistrations calls).resolve name = .ok (Text.lower name)) ∧
      ∀ other, Text.lower other = Text.lower name →
        (ofRegistrations calls).isSupported other = (ofRegistrations calls).isSupported name ∧
        ∀ language, (ofRegistrations calls).resolve other = .ok language ↔
          (ofRegistrations calls).resolve name = .ok language := by
  have h := consistent_ofRegistrations calls
  generalize ofRegistrations calls = r at h ⊢
  have hknown : ∀ name, r.isSupported name = true → ∃ language generator loader,
      r.resolve name = .ok language ∧ r.generator name = .ok generator ∧
      r.loader name = .ok loader ∧ Standing calls language generator loader := by
    intro name hname
    obtain ⟨language, generator, loader, hlanguage, hgenerator, hloader⟩ := h.resolve hname
    refine ⟨language, generator, loader, hlanguage, ?_, ?_,
      h.standing language generator loader hgenerator hloader⟩
    · rw [Registry.generator, hlanguage, ok_bind, hgenerator]
    · rw [Registry.loader, hlanguage, ok_bind, hloader]
  have hunknown : ∀ name, r.isSupported name = false →
      r.generator name = .error (r.unknown name) ∧ r.loader name = .error (r.unknown name) := by
    intro name hname
    rw [Registry.generator, Registry.loader, resolve_of_not_isSupported hname]
    exact ⟨rfl, rfl⟩
  refine ⟨h.keys_loaders, fun language hmem => ?_, h.aliases, fun name =>
    ⟨⟨fun hname => ?_, fun ⟨⟨generator, hgenerator⟩, _⟩ => ?_⟩, hknown name, hunknown name,
      resolve_of_mem, fun other hother => ⟨?_, fun language => resolve_of_lower hother⟩⟩⟩
  · obtain ⟨generator, hgenerator⟩ := exists_get? hmem
    obtain ⟨loader, hloader⟩ := exists_get? (h.keys_loaders ▸ hmem)
    exact ⟨generator, loader, hgenerator, hloader,
      h.standing language generator loader hgenerator hloader⟩
  · obtain ⟨language, generator, loader, -, hgenerator, hloader, -⟩ := hknown name hname
    exact ⟨⟨generator, hgenerator⟩, loader, hloader⟩
  · refine eq_true_of_ne_false fun hname => ?_
    cases hgenerator.symm.trans (hunknown name hname).1
  · rw [isSupported, isSupported, hother]

/-- A language that is entered later stands before a further name like it. -/
example : (ofRegistrations [⟨"go", some 1, 1, ["golang"], false⟩,
    ⟨"golang", some 2, 2, [], false⟩] : Registry Nat Nat).generator "GoLang" = .ok 2 :=
  rfl

/-! ### Refused registrations -/

/-- What a registration comes to. -/
def outcome (r : Registry Generator Loader) (c : Registration Generator Loader) :
    Except Failure Unit :=
  (r.register c.language c.generator c.loader c.aliases c.replace).2

/-- Further names with more of them for a language, which is no further name for itself. -/
def withAliases (language : String) (aliases : OrderedMap String String) (names : List String) :
    OrderedMap String String :=
  names.foldl
    (fun m name => if Text.lower name = language then m else put (Text.lower name) language m)
    aliases

/-- Whether a further name is entered, or passed over as the language itself; it is refused when it
is another language, unless what is there may be replaced. -/
def Admits (r : Registry Generator Loader) (language : String) (replace : Bool) (name : String) :
    Prop :=
  Text.lower name = language ∨ replace = true ∨ Text.lower name ∉ keys r.generators

/-- Admitted names are entered, and those behind them after that. -/
theorem enterAliases_append {language : String} {replace : Bool} {r : Registry Generator Loader}
    {before : List String} (h : ∀ n ∈ before, r.Admits language replace n) (rest : List String) :
    enterAliases language replace r (before ++ rest) =
      enterAliases language replace
        { r with aliases := withAliases language r.aliases before } rest := by
  induction before generalizing r with
  | nil => rfl
  | cons name before ih =>
      rw [List.forall_mem_cons] at h
      rw [List.cons_append, enterAliases]
      by_cases hself : Text.lower name = language
      · rw [if_pos hself, ih h.2, withAliases, withAliases, List.foldl_cons, if_pos hself]
      · have hadmitted : ¬ (!replace && has (Text.lower name) r.generators) = true := by
          rw [Bool.and_eq_true, Bool.not_eq_true', has_iff_mem_keys, not_and_or, Bool.not_eq_false]
          exact h.1.resolve_left hself
        have hrest := ih (r := { r with aliases := put (Text.lower name) language r.aliases }) h.2
        rw [if_neg hself, if_neg hadmitted, hrest, withAliases, withAliases, List.foldl_cons,
          if_neg hself]

/-- A name that is not admitted ends the registration. -/
theorem enterAliases_refused {language name : String} {replace : Bool}
    {r : Registry Generator Loader} (h : ¬ r.Admits language replace name) (rest : List String) :
    enterAliases language replace r (name :: rest) =
      (r, .error (.registry (.aliasConflict name))) := by
  rw [Admits, not_or, not_or, not_not, Bool.not_eq_true] at h
  rw [enterAliases, if_neg h.1, if_pos]
  rw [Bool.and_eq_true, Bool.not_eq_true', has_iff_mem_keys]
  exact h.2

/-- Either all elements of a list have a property, or there is a first one that has not. -/
theorem forall_or_exists_first {α : Type} (p : α → Prop) (xs : List α) :
    (∀ x ∈ xs, p x) ∨
      ∃ before x after, xs = before ++ x :: after ∧ (∀ y ∈ before, p y) ∧ ¬ p x := by
  induction xs with
  | nil => exact .inl nofun
  | cons x xs ih =>
      by_cases hx : p x
      · rcases ih with hall | ⟨before, y, after, rfl, hbefore, hy⟩
        · exact .inl (List.forall_mem_cons.mpr ⟨hx, hall⟩)
        · exact .inr ⟨x :: before, y, after, rfl, List.forall_mem_cons.mpr ⟨hx, hbefore⟩, hy⟩
      · exact .inr ⟨[], x, xs, rfl, nofun, hx⟩

/-- A registration of a new language has a further name that is not admitted, the first of them
with names on both sides of it. -/
structure Conflict (r : Registry Generator Loader) (c : Registration Generator Loader)
    (before : List String) (name : String) (after : List String) : Prop where
  offered : ∃ generator, c.generator = some generator
  fresh : c.key ∉ keys r.generators
  names : c.aliases = before ++ name :: after
  admitted : ∀ n ∈ before, r.Admits c.key c.replace n
  refused : ¬ r.Admits c.key c.replace name

/-- That a language has been entered makes no difference to its own further names. -/
theorem admits_opened {generator : Generator} {name : String} :
    (r.opened c generator).Admits c.key c.replace name ↔ r.Admits c.key c.replace name := by
  rw [Admits, Admits, opened, mem_keys_put]
  tauto

section
variable {before after : List String} {name : String}

/-- **A conflict leaves the language entered**, with the further names before the one that it is
about. -/
theorem Conflict.register (h : Conflict r c before name after) :
    ∃ generator, c.generator = some generator ∧
      r.register c.language c.generator c.loader c.aliases c.replace =
        (⟨r.generators ++ [(c.key, generator)], put c.key c.loader r.loaders,
            withAliases c.key r.aliases before⟩,
          .error (.registry (.aliasConflict name))) := by
  obtain ⟨generator, hc⟩ := h.offered
  have hrefused := enterAliases_refused
    (r := { r.opened c generator with aliases := withAliases c.key r.aliases before })
    (mt admits_opened.mp h.refused) after
  refine ⟨generator, hc, ?_⟩
  rw [register_opened hc (.inl h.fresh), h.names,
    enterAliases_append fun n hn => admits_opened.mpr (h.admitted n hn)]
  refine hrefused.trans ?_
  rw [opened, put_of_notMem h.fresh]

theorem Conflict.outcome_eq (h : Conflict r c before name after) :
    r.outcome c = .error (.registry (.aliasConflict name)) := by
  obtain ⟨generator, -, hregister⟩ := h.register
  rw [outcome, hregister]

theorem Conflict.enter_eq (h : Conflict r c before name after) :
    ∃ generator, c.generator = some generator ∧
      r.enter c = ⟨r.generators ++ [(c.key, generator)], put c.key c.loader r.loaders,
        withAliases c.key r.aliases before⟩ := by
  obtain ⟨generator, hc, hregister⟩ := h.register
  exact ⟨generator, hc, by rw [enter, hregister]⟩

theorem Conflict.enter_ne (h : Conflict r c before name after) : r.enter c ≠ r := by
  obtain ⟨generator, -, hentered⟩ := h.enter_eq
  intro hsame
  have hlength := congrArg (fun r => r.generators.length) (hentered.symm.trans hsame)
  rw [List.length_append] at hlength
  exact absurd hlength (Nat.succ_ne_self _)

/-- **A conflict is not made good by another try.**  The same registration with any other further
names is passed over, as its language is there. -/
theorem Conflict.register_again (h : Conflict r c before name after) (names : List String) :
    (r.enter c).register c.language c.generator c.loader names c.replace = (r.enter c, .ok ()) := by
  obtain ⟨generator, hc, hentered⟩ := h.enter_eq
  have hkept : c.replace = false :=
    Bool.not_eq_true _ ▸ fun hreplace => h.refused (.inr (.inl hreplace))
  have hthere : c.key ∈ keys (r.enter c).generators := by
    rw [hentered, keys, List.map_append]
    exact List.mem_append_right _ List.mem_cons_self
  exact register_kept (c := { c with aliases := names }) hc hthere hkept

end

/-- A language that is there stays as it is, unless it is to be replaced. -/
theorem enter_kept (r : Registry Generator Loader) (c : Registration Generator Loader)
    (hthere : c.key ∈ keys r.generators) (hkept : c.replace = false) : r.enter c = r := by
  rcases enter_cases r c with ⟨hsame, -⟩ | ⟨generator, hentered⟩
  · exact hsame
  · rcases hentered.admitted with hnew | hreplace
    · exact absurd hthere hnew
    · rw [hkept] at hreplace
      cases hreplace

/-- The ways in which a registration ends. -/
theorem outcome_cases (r : Registry Generator Loader) (c : Registration Generator Loader) :
    (c.generator = none ∧ r.outcome c = .error (.registry .notAGenerator)) ∨
      (∃ before name after, Conflict r c before name after) ∨
      ((∃ generator, c.generator = some generator) ∧ r.outcome c = .ok ()) := by
  cases hc : c.generator with
  | none => exact .inl ⟨rfl, by rw [outcome, hc, Registry.register]⟩
  | some generator =>
      refine .inr ?_
      by_cases hkept : c.key ∈ keys r.generators ∧ c.replace = false
      · exact .inr ⟨⟨generator, rfl⟩, by rw [outcome, register_kept hc hkept.1 hkept.2]⟩
      · rw [not_and_or, Bool.not_eq_false] at hkept
        rcases forall_or_exists_first (r.Admits c.key c.replace) c.aliases with
          hall | ⟨before, name, after, hnames, hbefore, hname⟩
        · refine .inr ⟨⟨generator, rfl⟩, ?_⟩
          rw [outcome, register_opened hc hkept, ← List.append_nil c.aliases,
            enterAliases_append fun n hn => admits_opened.mpr (hall n hn), enterAliases]
        · refine .inl ⟨before, name, after, ⟨generator, hc⟩, ?_, hnames, hbefore, hname⟩
          -- a name is refused only where nothing may be replaced
          exact hkept.resolve_right fun hreplace => hname (.inr (.inl hreplace))

/-- **Which refused registrations change nothing.**  In any state of a registry, a registration
fails if and only if it offers no generator, or is one of a new language that has another language
among its further names, at any place of them.  It then leaves the registry as it was if and only
if it offers no generator: at a conflict the new language stays, with its generator, its loader and
the further names before the one that is refused.  A registration that is passed over, since the
language is there already and is not to be replaced, changes nothing. -/
theorem unchanged_iff_of_refused (r : Registry Generator Loader)
    (c : Registration Generator Loader) :
    (∀ cause, r.outcome c = .error cause ↔
      (c.generator = none ∧ cause = .registry .notAGenerator) ∨
        ∃ before name after, Conflict r c before name after ∧
          cause = .registry (.aliasConflict name)) ∧
    (∀ cause, r.outcome c = .error cause → (r.enter c = r ↔ c.generator = none)) ∧
    (∀ before name after, Conflict r c before name after →
      ∃ generator, c.generator = some generator ∧
        r.enter c = ⟨r.generators ++ [(c.key, generator)], put c.key c.loader r.loaders,
          withAliases c.key r.aliases before⟩) ∧
    (c.key ∈ keys r.generators → c.replace = false → r.enter c = r) := by
  refine ⟨fun cause => ?_, fun cause hfailed => ?_, fun before name after h => h.enter_eq,
    enter_kept r c⟩
  · constructor
    · intro hfailed
      rcases outcome_cases r c with ⟨hc, hnone⟩ | ⟨before, name, after, h⟩ | ⟨-, hok⟩
      · exact .inl ⟨hc, Except.error.inj (hfailed.symm.trans hnone)⟩
      · exact .inr ⟨before, name, after, h, Except.error.inj (hfailed.symm.trans h.outcome_eq)⟩
      · cases hfailed.symm.trans hok
    · rintro (⟨hc, rfl⟩ | ⟨before, name, after, h, rfl⟩)
      · rw [outcome, hc, Registry.register]
      · exact h.outcome_eq
  · constructor
    · intro hsame
      rcases outcome_cases r c with ⟨hc, -⟩ | ⟨before, name, after, h⟩ | ⟨-, hok⟩
      · exact hc
      · exact absurd hsame h.enter_ne
      · cases hfailed.symm.trans hok
    · intro hc
      rw [enter, hc, Registry.register]

/-- A registry with one language. -/
def oneLanguage : Registry Nat Nat := ofRegistrations [⟨"go", some 1, 1, ["golang"], false⟩]

/-- A language with a further name that is free, itself in capitals, and a language. -/
def conflicting : Registration Nat Nat := ⟨"Py", some 2, 2, ["python", "PY", "Go", "snake"], false⟩

theorem conflict_conflicting :
    Conflict oneLanguage conflicting ["python", "PY"] "Go" ["snake"] where
  offered := ⟨2, rfl⟩
  fresh := by decide
  names := rfl
  admitted n hn := by
    rcases List.mem_pair.mp hn with rfl | rfl
    · exact .inr (.inr (by decide))
    · exact .inl (by decide)
  refused := by
    rw [Admits]
    decide

/-- The language stays, with the name before the conflict and not with the one behind it. -/
theorem unchanged_iff_of_conflicting :
    oneLanguage.outcome conflicting = .error (.registry (.aliasConflict "Go")) ∧
      oneLanguage.enter conflicting = ⟨[("go", 1), ("py", 2)], [("go", 1), ("py", 2)],
        [("golang", "go"), ("python", "py")]⟩ := by
  obtain ⟨houtcome, -, hleft, -⟩ := unchanged_iff_of_refused oneLanguage conflicting
  refine ⟨(houtcome _).mpr (.inr ⟨_, _, _, conflict_conflicting, rfl⟩), ?_⟩
  obtain ⟨generator, hgenerator, hentered⟩ := hleft _ _ _ conflict_conflicting
  cases hgenerator
  exact hentered

/-- A registration fails for a further name, and the language is known afterwards. -/
theorem refused_registration_leaves_language :
    (oneLanguage.register "py" (some 2) 2 ["python", "go"] false).2 =
        .error (.registry (.aliasConflict "go")) ∧
      (oneLanguage.register "py" (some 2) 2 ["python", "go"] false).1 ≠ oneLanguage ∧
      oneLanguage.isSupported "python" = false ∧
      (oneLanguage.register "py" (some 2) 2 ["python", "go"] false).1.isSupported "python" = true :=
  by decide

end EnumHelpers.Registry
