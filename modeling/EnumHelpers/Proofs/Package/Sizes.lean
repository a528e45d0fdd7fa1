import EnumHelpers.Proofs.Number.Bits
import EnumHelpers.Proofs.OrderedMap
import EnumHelpers.Proofs.Outcome
import EnumHelpers.Proofs.Package.Declarations
import EnumHelpers.Proofs.Package.Search
import Mathlib.Data.Fintype.EquivFin
import Mathlib.Data.Fintype.Sets
import Mathlib.Logic.Relation

/-!
# Proofs — sizes of unsigned types

The size of a type is looked for along its chain of declarations.  The search ends at an unsigned
type, at a text that is not declared, or at a name that it has passed before (`Sized`), so it ends
however the types are declared: every name that is passed is a declared one less ahead.

Which type a text names is a matter of how types are read: `(uint8)` names what `uint8` does.  The
search compares texts, so it follows a chain as far as its links are written as names.  Without
cycles, the complement of a value stays within the bits of the unsigned type at the end of its
type's chain if and only if all of the chain is written so.

* `sized_unsignedBits`: the search ends, with the size that is found.
* `exists_endsIn`: without cycles, every chain has an end.
* `sized_of_endsIn`: without cycles, the search finds the size of the text at the end of the chain.
* `unsignedBits_of_not_endsIn`: a chain that is not written as names is not followed to its end.
-/

namespace EnumHelpers.Package
open Source Relation

namespace Types

variable {types : Types} {seen : List String} {name : String} {o : Option Nat}

/-! ### The search -/

/-- The search for a size from a name ends with an answer, when the names in `seen` were passed. -/
inductive Sized (types : Types) : List String → String → Option Nat → Prop
  | passed {seen : List String} {name : String} (h : name ∈ seen) : Sized types seen name none
  | found {seen : List String} {name : String} {bits : Nat} (hs : name ∉ seen)
      (h : OrderedMap.get? name unsignedSizes = some bits) : Sized types seen name (some bits)
  | ended {seen : List String} {name : String} (hs : name ∉ seen)
      (hb : OrderedMap.get? name unsignedSizes = none) (h : types.next? name = none) :
      Sized types seen name none
  | follow {seen : List String} {name target : String} {o : Option Nat} (hs : name ∉ seen)
      (hb : OrderedMap.get? name unsignedSizes = none) (hn : types.next? name = some target)
      (h : Sized types (name :: seen) target o) : Sized types seen name o

/-- The declared types that were not passed yet. -/
def unpassed (types : Types) (seen : List String) : List String :=
  (OrderedMap.keys types.aliases).filter fun name => name ∉ seen

/-- A type that leads on is declared. -/
theorem mem_keys_of_next? {target : String} (h : types.next? name = some target) :
    name ∈ OrderedMap.keys types.aliases := by
  by_contra hn
  rw [next?, OrderedMap.get?_eq_none_iff.mpr hn] at h
  cases h

/-- Every step of the search passes one of the declared types. -/
theorem length_unpassed_lt {target : String} (hs : name ∉ seen)
    (h : types.next? name = some target) :
    (types.unpassed (name :: seen)).length < (types.unpassed seen).length := by
  have hless : types.unpassed (name :: seen) = (types.unpassed seen).filter fun n => n ≠ name := by
    rw [unpassed, unpassed, List.filter_filter]
    refine List.filter_congr fun n _ => ?_
    simp [not_or]
  have hmem : name ∈ types.unpassed seen :=
    List.mem_filter.mpr ⟨mem_keys_of_next? h, by simpa using hs⟩
  rw [hless, List.length_filter_lt_length_iff_exists]
  exact ⟨name, hmem, by simp⟩

/-- With more steps than declared types that were not passed, the search comes to its answer. -/
theorem Sized.unsignedFrom_eq (h : Sized types seen name o) {fuel : Nat}
    (hf : (types.unpassed seen).length < fuel) : types.unsignedFrom fuel seen name = o := by
  induction h generalizing fuel with
  | passed h =>
      obtain ⟨fuel, rfl⟩ := Nat.exists_eq_succ_of_ne_zero (Nat.ne_zero_of_lt hf)
      rw [unsignedFrom, if_pos (by simpa using h)]
  | found hs h =>
      obtain ⟨fuel, rfl⟩ := Nat.exists_eq_succ_of_ne_zero (Nat.ne_zero_of_lt hf)
      rw [unsignedFrom, if_neg (by simpa using hs), h]
  | ended hs hb h =>
      obtain ⟨fuel, rfl⟩ := Nat.exists_eq_succ_of_ne_zero (Nat.ne_zero_of_lt hf)
      rw [unsignedFrom, if_neg (by simpa using hs), hb, h]
  | follow hs hb hn _ ih =>
      obtain ⟨fuel, rfl⟩ := Nat.exists_eq_succ_of_ne_zero (Nat.ne_zero_of_lt hf)
      rw [unsignedFrom, if_neg (by simpa using hs), hb, hn]
      exact ih (Nat.lt_of_lt_of_le (length_unpassed_lt hs hn) (Nat.le_of_lt_succ hf))

/-- The search has an answer, whatever was passed. -/
theorem exists_sized (types : Types) (seen : List String) (name : String) :
    ∃ o, Sized types seen name o := by
  induction hlen : (types.unpassed seen).length using Nat.strong_induction_on
    generalizing seen name with
  | h len ih =>
      by_cases hs : name ∈ seen
      · exact ⟨none, .passed hs⟩
      cases hb : OrderedMap.get? name unsignedSizes with
      | some bits => exact ⟨some bits, .found hs hb⟩
      | none =>
          cases hn : types.next? name with
          | none => exact ⟨none, .ended hs hb hn⟩
          | some target =>
              obtain ⟨o, ho⟩ := ih _ (hlen ▸ length_unpassed_lt hs hn) (name :: seen) target rfl
              exact ⟨o, .follow hs hb hn ho⟩

theorem Sized.unsignedBits_eq (h : Sized types [] name o) : types.unsignedBits (some name) = o := by
  refine h.unsignedFrom_eq (Nat.lt_of_le_of_lt (List.length_filter_le _ _) ?_)
  rw [OrderedMap.keys, List.length_map]
  omega

/-- **The search for a size ends** with the size that is found, however the types are declared. -/
theorem sized_unsignedBits (types : Types) (name : String) :
    Sized types [] name (types.unsignedBits (some name)) := by
  obtain ⟨o, ho⟩ := exists_sized types [] name
  rwa [ho.unsignedBits_eq]

/-! ### Declarations -/

/-- A declaration of a type gives it a text for its target. -/
def Declares (specs : List TypeSpec) (name text : String) : Prop :=
  ∃ spec ∈ specs, spec.name = name ∧ spec.target = some text

/-- Distinct names are declared, none of which needs no declaration. -/
structure Fresh (specs : List TypeSpec) : Prop where
  distinct : (specs.map TypeSpec.name).Nodup
  notPredeclared : ∀ spec ∈ specs, spec.name ∉ predeclaredTypes

variable {specs : List TypeSpec} {text : String}

theorem next?_declare (types : Types) (declared : String) (isAlias : Bool) (target name : String) :
    (types.declare declared isAlias target).next? name =
      if declared = name then some target else types.next? name := by
  rw [declare]
  split <;> by_cases h : declared = name <;> simp [next?, OrderedMap.get?_put, h]

theorem declares_cons {spec : TypeSpec} :
    Declares (spec :: specs) name text ↔
      spec.name = name ∧ spec.target = some text ∨ Declares specs name text := by
  simp only [Declares, List.exists_mem_cons_iff]

theorem mem_names_of_declares (h : Declares specs name text) :
    name ∈ specs.map TypeSpec.name := by
  obtain ⟨spec, hspec, rfl, -⟩ := h
  exact List.mem_map_of_mem hspec

/-- Behind declarations with distinct names, a name leads to the target of its own one, or to where
it led before. -/
theorem next?_of_enter {before : Types} (hn : (specs.map TypeSpec.name).Nodup)
    (h : specs.foldlM enter before = .ok types) :
    types.next? name = some text ↔ Declares specs name text ∨
      name ∉ specs.map TypeSpec.name ∧ before.next? name = some text := by
  induction specs generalizing before with
  | nil =>
      cases h
      simp [Declares]
  | cons spec rest ih =>
      rw [List.map_cons, List.nodup_cons] at hn
      rw [List.foldlM_cons] at h
      obtain ⟨after, henter, h⟩ := bind_eq_ok.mp h
      rw [enter] at henter
      split at henter
      · rename_i target htarget
        cases henter
        rw [ih hn.2 h, next?_declare, declares_cons, htarget, List.map_cons, List.mem_cons, not_or]
        by_cases hname : spec.name = name
        · subst hname
          have hnone : ¬ Declares rest spec.name text := fun hd => hn.1 (mem_names_of_declares hd)
          simp [hnone, hn.1]
        · simp [hname, Ne.symm hname]
      · cases henter

/-- With distinct names, a name leads to the target that its declaration gives. -/
theorem next?_iff (hf : Fresh specs) (h : specs.foldlM enter {} = .ok types) :
    types.next? name = some text ↔ Declares specs name text := by
  have hnone : ({} : Types).next? name ≠ some text := nofun
  rw [next?_of_enter hf.distinct h]
  simp [hnone]

/-- The unsigned types need no declaration. -/
theorem mem_predeclaredTypes {bits : Nat} (h : OrderedMap.get? name unsignedSizes = some bits) :
    name ∈ predeclaredTypes := by
  have hsub : ∀ n ∈ OrderedMap.keys unsignedSizes, n ∈ predeclaredTypes := by decide
  exact hsub _ (List.mem_map_of_mem (OrderedMap.mem_of_get? h))

/-- A name that is declared is none of the unsigned types. -/
theorem get?_unsignedSizes_of_declares (hf : Fresh specs) (h : Declares specs name text) :
    OrderedMap.get? name unsignedSizes = none := by
  obtain ⟨spec, hspec, rfl, -⟩ := h
  cases hb : OrderedMap.get? spec.name unsignedSizes with
  | none => rfl
  | some bits => exact (hf.notPredeclared spec hspec (mem_predeclaredTypes hb)).elim

/-! ### Chains -/

/-- A way to read the texts of types: a name that is declared or needs no declaration stands for
itself, and what other texts stand for is not said. -/
def Reads (specs : List TypeSpec) (reading : String → String) : Prop :=
  ∀ name, name ∈ specs.map TypeSpec.name ∨ name ∈ predeclaredTypes → reading name = name

/-- A type leads to the one that the text of its target stands for. -/
def Leads (specs : List TypeSpec) (reading : String → String) (name next : String) : Prop :=
  ∃ text, Declares specs name text ∧ reading text = next

/-- The chain of a type ends in one that is not declared. -/
structure EndsIn (specs : List TypeSpec) (reading : String → String) (name last : String) :
    Prop where
  chain : ReflTransGen (Leads specs reading) name last
  undeclared : ∀ text, ¬ Declares specs last text

/-- No chain comes back to where it began. -/
def Acyclic (specs : List TypeSpec) (reading : String → String) : Prop :=
  ∀ name, ¬ TransGen (Leads specs reading) name name

/-- Distinct names are declared, and the chains of types come to an end when texts are read so. -/
structure Grounded (specs : List TypeSpec) (reading : String → String) : Prop where
  fresh : Fresh specs
  reads : Reads specs reading
  acyclic : Acyclic specs reading

variable {reading : String → String} {last : String}

/-- There are no cycles when every step goes down in a rank. -/
theorem acyclic_of_rank (rank : String → Nat)
    (h : ∀ spec ∈ specs, ∀ text, spec.target = some text → rank (reading text) < rank spec.name) :
    Acyclic specs reading := by
  have hdown : ∀ a b, TransGen (Leads specs reading) a b → rank b < rank a := by
    intro a b hab
    induction hab using TransGen.head_induction_on with
    | single hstep =>
        obtain ⟨text, ⟨spec, hspec, rfl, ht⟩, rfl⟩ := hstep
        exact h spec hspec text ht
    | head hstep _ ih =>
        obtain ⟨text, ⟨spec, hspec, rfl, ht⟩, rfl⟩ := hstep
        exact ih.trans (h spec hspec text ht)
  exact fun name hcycle => (hdown name name hcycle).false

/-- A chain goes one way only, when the names are distinct. -/
theorem Leads.unique (hf : Fresh specs) {a b c : String} (hb : Leads specs reading a b)
    (hc : Leads specs reading a c) : b = c := by
  obtain ⟨s, ⟨spec, hspec, hname, hs⟩, rfl⟩ := hb
  obtain ⟨t, ⟨other, hother, hname', ht⟩, rfl⟩ := hc
  have hsame : spec = other :=
    List.inj_on_of_nodup_map hf.distinct hspec hother (hname.trans hname'.symm)
  rw [hsame, ht] at hs
  rw [Option.some.inj hs]

theorem EndsIn.unique (hf : Fresh specs) {other : String} (h : EndsIn specs reading name last)
    (h' : EndsIn specs reading name other) : last = other := by
  obtain ⟨hchain, hstop⟩ := h
  induction hchain using ReflTransGen.head_induction_on with
  | refl =>
      rcases ReflTransGen.cases_head h'.chain with heq | ⟨next, ⟨text, hd, -⟩, -⟩
      · exact heq
      · exact (hstop text hd).elim
  | head hstep _ ih =>
      rcases ReflTransGen.cases_head h'.chain with heq | ⟨next, hnext, hrest⟩
      · obtain ⟨text, hd, -⟩ := hstep
        exact (h'.undeclared text (heq ▸ hd)).elim
      · rw [hstep.unique hf hnext] at ih
        exact ih ⟨hrest, h'.undeclared⟩

/-- A name without a declaration is the end of its chain. -/
theorem endsIn_self (h : name ∉ specs.map TypeSpec.name) : EndsIn specs reading name name :=
  ⟨.refl, fun _ hd => h (mem_names_of_declares hd)⟩

theorem EndsIn.head {next : String} (hstep : Leads specs reading name next)
    (h : EndsIn specs reading next last) : EndsIn specs reading name last :=
  ⟨.head hstep h.chain, h.undeclared⟩

/-- Without cycles, the way down the chains of declared names is well founded: they are finitely
many. -/
theorem Acyclic.wellFounded (hacyclic : Acyclic specs reading) :
    WellFounded fun a b : {n // n ∈ specs.map TypeSpec.name} =>
      TransGen (Leads specs reading) b a := by
  let behind (a b : {n // n ∈ specs.map TypeSpec.name}) : Prop :=
    TransGen (Leads specs reading) b a
  have : IsTrans _ behind := ⟨fun _ _ _ hab hbc => hbc.trans hab⟩
  have : Std.Irrefl behind := ⟨fun a => hacyclic a⟩
  exact Finite.wellFounded_of_trans_of_irrefl behind

/-- **Without cycles, every chain has an end.** -/
theorem exists_endsIn (hacyclic : Acyclic specs reading) (name : String) :
    ∃ last, EndsIn specs reading name last := by
  suffices h : ∀ n : {n // n ∈ specs.map TypeSpec.name}, ∃ last, EndsIn specs reading n last by
    by_cases hname : name ∈ specs.map TypeSpec.name
    · exact h ⟨name, hname⟩
    · exact ⟨name, endsIn_self hname⟩
  intro n
  induction n using hacyclic.wellFounded.induction with
  | h n ih =>
      by_cases hd : ∃ text, Declares specs n text
      · obtain ⟨text, hd⟩ := hd
        have hstep : Leads specs reading n (reading text) := ⟨text, hd, rfl⟩
        by_cases hnext : reading text ∈ specs.map TypeSpec.name
        · obtain ⟨last, hlast⟩ := ih ⟨_, hnext⟩ (.single hstep)
          exact ⟨last, hlast.head hstep⟩
        · exact ⟨_, (endsIn_self hnext).head hstep⟩
      · exact ⟨n, .refl, not_exists.mp hd⟩

/-- A step whose text is written as the name of a type that is declared or needs no declaration is
the same, however texts are read. -/
theorem Leads.reads (hreads : Reads specs reading) {next : String} (h : Leads specs id name next)
    (hnext : next ∈ specs.map TypeSpec.name ∨ next ∈ predeclaredTypes) :
    Leads specs reading name next := by
  obtain ⟨text, hd, rfl⟩ := h
  exact ⟨text, hd, hreads text hnext⟩

/-- A cycle of texts is one of what they are read as. -/
theorem Acyclic.texts (hreads : Reads specs reading) (hacyclic : Acyclic specs reading) :
    Acyclic specs id := by
  intro name hcycle
  refine hacyclic name ?_
  have hdeclared : ∀ n, TransGen (Leads specs id) n name → n ∈ specs.map TypeSpec.name := by
    intro n hn
    obtain ⟨_, ⟨text, hd, -⟩, -⟩ := TransGen.head'_iff.mp hn
    exact mem_names_of_declares hd
  -- every name on the cycle leads on, so that it is declared
  suffices h : ∀ a b, TransGen (Leads specs id) a b → TransGen (Leads specs id) b name →
      TransGen (Leads specs reading) a b from h name name hcycle hcycle
  intro a b hab hb
  induction hab using TransGen.head_induction_on with
  | single hstep => exact .single (hstep.reads hreads (.inl (hdeclared _ hb)))
  | head hstep hrest ih =>
      exact .head (hstep.reads hreads (.inl (hdeclared _ (hrest.trans hb)))) ih

/-- A chain of texts that ends in a type without a need of declaration ends there, however texts are
read. -/
theorem EndsIn.reads (hreads : Reads specs reading) (h : EndsIn specs id name last)
    (hlast : last ∈ predeclaredTypes) : EndsIn specs reading name last := by
  obtain ⟨hchain, hstop⟩ := h
  refine ⟨?_, hstop⟩
  induction hchain using ReflTransGen.head_induction_on with
  | refl => exact .refl
  | head hstep hrest ih =>
      refine .head (hstep.reads hreads ?_) ih
      rcases ReflTransGen.cases_head hrest with rfl | ⟨_, ⟨text, hd, -⟩, -⟩
      · exact .inr hlast
      · exact .inl (mem_names_of_declares hd)

/-- **Without cycles, the search finds the size of the text at the end of the chain.** -/
theorem sized_of_endsIn (hf : Fresh specs) (h : specs.foldlM enter {} = .ok types)
    (hacyclic : Acyclic specs id) (hend : EndsIn specs id name last) {seen : List String}
    (hseen : ∀ n ∈ seen, ¬ ReflTransGen (Leads specs id) name n) :
    Sized types seen name (OrderedMap.get? last unsignedSizes) := by
  obtain ⟨hchain, hstop⟩ := hend
  induction hchain using ReflTransGen.head_induction_on generalizing seen with
  | refl =>
      have hnew : last ∉ seen := fun hm => hseen _ hm .refl
      have hnext : types.next? last = none := by
        cases hn : types.next? last with
        | none => rfl
        | some text => exact (hstop text ((next?_iff hf h).mp hn)).elim
      cases hb : OrderedMap.get? last unsignedSizes with
      | none => exact .ended hnew hb hnext
      | some bits => exact .found hnew hb
  | @head a b hstep hrest ih =>
      obtain ⟨text, hd, rfl⟩ := hstep
      refine .follow (fun hm => hseen _ hm .refl) (get?_unsignedSizes_of_declares hf hd)
        ((next?_iff hf h).mpr hd) (ih fun n hn hreach => ?_)
      -- a name that was passed and is ahead would close a cycle
      rcases List.mem_cons.mp hn with rfl | hn
      · exact hacyclic _ (.head' ⟨text, hd, rfl⟩ hreach)
      · exact hseen n hn (.head ⟨text, hd, rfl⟩ hreach)

theorem unsignedBits_of_endsIn (hf : Fresh specs) (h : specs.foldlM enter {} = .ok types)
    (hacyclic : Acyclic specs id) (hend : EndsIn specs id name last) :
    types.unsignedBits (some name) = OrderedMap.get? last unsignedSizes :=
  (sized_of_endsIn hf h hacyclic hend (List.forall_mem_nil _)).unsignedBits_eq

/-- A chain that is not written as names to its end is not followed to an unsigned type. -/
theorem unsignedBits_of_not_endsIn (hg : Grounded specs reading)
    (h : specs.foldlM enter {} = .ok types) (hend : EndsIn specs reading name last)
    (hnot : ¬ EndsIn specs id name last) : types.unsignedBits (some name) = none := by
  have htexts := hg.acyclic.texts hg.reads
  obtain ⟨stop, hstop⟩ := exists_endsIn htexts name
  rw [unsignedBits_of_endsIn hg.fresh h htexts hstop]
  cases hb : OrderedMap.get? stop unsignedSizes with
  | none => rfl
  | some bits =>
      -- an unsigned type is read as itself, so that the chain would end there
      rw [(hstop.reads hg.reads (mem_predeclaredTypes hb)).unique hg.fresh hend] at hstop
      exact (hnot hstop).elim

end Types

/-! ### Complements -/

open Package.Types

variable {types : Types} {lookup : String → Search Typed} {iota : Nat} {p p' : Progress} {e : Expr}
  {v : Constant} {type : Option String} {x : Int}

/-- An expression is evaluated to a value of a type, or of none. -/
def Evaluates (types : Types) (lookup : String → Search Typed) (iota : Nat) (p p' : Progress)
    (e : Expr) (v : Constant) (type : Option String) : Prop :=
  (evaluate types lookup iota e).run p = (.ok ⟨v, type⟩, p')

/-- The complement of an integer has its type. -/
theorem Evaluates.complement (h : Evaluates types lookup iota p p' e v type)
    (hx : v.integer? = some x) : Evaluates types lookup iota p p' (.unary .complement e)
      (.whole (Constant.complementWithin (types.unsignedBits type) x)) type := by
  have happly : Constant.applyUnary .complement v (types.unsignedBits type) =
      .ok (.whole (Constant.complementWithin (types.unsignedBits type) x)) := by
    rw [Constant.applyUnary, hx]
  rw [Evaluates, evaluate, run_bind_ok h, happly]
  rfl

theorem Evaluates.unique {v' : Constant} (h : Evaluates types lookup iota p p' e v type)
    (h' : Evaluates types lookup iota p p' e v' type) : v = v' := by
  rw [Evaluates, h] at h'
  cases h'
  rfl

theorem complementWithin_none : Constant.complementWithin none x = -x - 1 := rfl

theorem complementWithin_some {w : Nat} (hw : 0 < w) (h₀ : 0 ≤ x) (h : x < 2 ^ w) :
    Constant.complementWithin (some w) x = 2 ^ w - 1 - x := by
  obtain ⟨k, rfl⟩ := Nat.exists_eq_succ_of_ne_zero hw.ne'
  exact Number.bitXor_mask h₀ h

/-- **Complements of unsigned values.**  The search for the size of a type has one answer, whatever
the types are.  When they are declared by files, with distinct names of which none is predeclared,
and without cycles, the chain of every type has one end.  The complement of an operand of a type
whose chain ends in an unsigned type stays within the bits of that type if and only if every link of
the chain is written as a name; that of any other operand is the complement of all its bits. -/
theorem complement_of_operand (types : Types) :
    (∀ (name : String) (o : Option Nat),
      Sized types [] name o ↔ types.unsignedBits (some name) = o) ∧
    ∀ {files : List SourceFile} {specs : List TypeSpec} {reading : String → String},
      specs = files.flatMap (·.types) → Types.ofFiles files = .ok types → Grounded specs reading →
      ∀ {lookup : String → Search Typed} {iota : Nat} {p p' : Progress} {e : Expr} {v : Constant}
        {type : Option String} {x : Int},
        Evaluates types lookup iota p p' e v type → v.integer? = some x →
        (type = none →
          Evaluates types lookup iota p p' (.unary .complement e) (.whole (-x - 1)) none) ∧
        ∀ T, type = some T → ∃ last, EndsIn specs reading T last ∧
          (∀ other, EndsIn specs reading T other → other = last) ∧
          (OrderedMap.get? last unsignedSizes = none →
            Evaluates types lookup iota p p' (.unary .complement e) (.whole (-x - 1)) (some T)) ∧
          ∀ w, OrderedMap.get? last unsignedSizes = some w → 0 ≤ x → x < 2 ^ w →
            (Evaluates types lookup iota p p' (.unary .complement e) (.whole (2 ^ w - 1 - x))
              (some T) ↔ EndsIn specs id T last) ∧
            (0 ≤ 2 ^ w - 1 - x ∧ 2 ^ w - 1 - x < 2 ^ w) ∧
            Evaluates types lookup iota p p' (.unary .complement (.unary .complement e)) (.whole x)
              (some T) := by
  refine ⟨fun name o => ⟨fun h => h.unsignedBits_eq, fun h => h ▸ sized_unsignedBits types name⟩,
    ?_⟩
  rintro files specs reading rfl htypes hg lookup iota p p' e v type x he hx
  have hcomplement := he.complement hx
  have hagain := hcomplement.complement rfl
  refine ⟨?_, ?_⟩
  · rintro rfl
    exact hcomplement
  rintro T rfl
  obtain ⟨last, hlast⟩ := exists_endsIn hg.acyclic T
  have hwritten (h : EndsIn _ id T last) :=
    unsignedBits_of_endsIn hg.fresh htypes (hg.acyclic.texts hg.reads) h
  have hread := unsignedBits_of_not_endsIn hg htypes hlast
  refine ⟨last, hlast, fun other h => h.unique hg.fresh hlast, fun hsigned => ?_,
    fun w hw h₀ h => ?_⟩
  · have hnone : types.unsignedBits (some T) = none := by
      by_cases hend : EndsIn (files.flatMap (·.types)) id T last
      · rw [hwritten hend, hsigned]
      · exact hread hend
    rwa [hnone] at hcomplement
  have hpos : 0 < w := by
    have hall : ∀ entry ∈ unsignedSizes, 0 < entry.2 := by decide
    exact hall _ (OrderedMap.mem_of_get? hw)
  have hpow : (0 : Int) < 2 ^ w := by positivity
  by_cases hend : EndsIn (files.flatMap (·.types)) id T last
  · rw [hwritten hend, hw, complementWithin_some hpos h₀ h] at hcomplement hagain
    rw [complementWithin_some hpos (by omega) (by omega), sub_sub_cancel] at hagain
    exact ⟨⟨fun _ => hend, fun _ => hcomplement⟩, by omega, hagain⟩
  · rw [hread hend, complementWithin_none] at hcomplement hagain
    rw [complementWithin_none, neg_sub', sub_neg_eq_add, add_sub_cancel_right, neg_neg] at hagain
    refine ⟨⟨fun hmask => ?_, fun h => (hend h).elim⟩, by omega, hagain⟩
    -- the complement of all bits is negative
    injection hmask.unique hcomplement
    omega

/-! ### A type in parentheses -/

/-- A file with two types that `uint8` is at the end of; one of them is made of the other in
parentheses. -/
def nestedSource : List Text.Glyph :=
  ("package p\ntype N uint8\ntype M (N)\n" ++
    "const A N = 1\nconst B = ^A\nconst C M = 1\nconst D = ^C\n").toList.map .char

/-- What the file says. -/
def nestedFile : SourceFile :=
  ⟨some "p", [⟨"N", false, some "uint8"⟩, ⟨"M", false, some "(N)"⟩],
    [[⟨["A"], some ⟨some (some "N"), [.int "1"]⟩, ⟨3, 13⟩⟩],
      [⟨["B"], some ⟨none, [.unary .complement (.name "A")]⟩, ⟨4, 12⟩⟩],
      [⟨["C"], some ⟨some (some "M"), [.int "1"]⟩, ⟨5, 13⟩⟩],
      [⟨["D"], some ⟨none, [.unary .complement (.name "C")]⟩, ⟨6, 12⟩⟩]], []⟩

theorem parse_nestedSource : SourceFile.parse nestedSource = some nestedFile := by
  decide +kernel

/-- The types of the file. -/
def nestedTypes : Types := ⟨[("N", none), ("M", none)], [("N", "uint8"), ("M", "(N)")]⟩

/-- The text within parentheses, and any other text as it is. -/
def withoutParens (text : String) : String :=
  match text.toList with
  | '(' :: rest => String.ofList rest.dropLast
  | _ => text

theorem grounded_nestedFile : Grounded nestedFile.types withoutParens := by
  refine ⟨⟨by decide, by decide⟩, ?_, ?_⟩
  · have hnames : ∀ name ∈ nestedFile.types.map TypeSpec.name ++ predeclaredTypes,
        withoutParens name = name := by decide +kernel
    exact fun name h => hnames name (List.mem_append.mpr h)
  · refine acyclic_of_rank (fun name => if name = "M" then 2 else if name = "N" then 1 else 0) ?_
    intro spec hspec text ht
    simp only [nestedFile, List.mem_cons, List.not_mem_nil, or_false] at hspec
    rcases hspec with rfl | rfl <;> cases ht <;> decide +kernel

theorem endsIn_uint8 (reading : String → String) :
    EndsIn nestedFile.types reading "uint8" "uint8" :=
  endsIn_self (by decide)

/-- One of the types is made of `uint8`. -/
theorem endsIn_N {reading : String → String} (h : reading "uint8" = "uint8") :
    EndsIn nestedFile.types reading "N" "uint8" :=
  (endsIn_uint8 reading).head ⟨"uint8", ⟨_, .head _, rfl, rfl⟩, h⟩

/-- The complement of one of the type `N` has the seven highest of eight bits. -/
theorem complement_of_operand_N :
    Types.ofFiles [nestedFile] = .ok nestedTypes ∧ Grounded nestedFile.types withoutParens ∧
      EndsIn nestedFile.types id "N" "uint8" ∧
      Evaluates nestedTypes (fun _ => throw .notText) 0 {} {}
        (.unary .complement (.conversion "N" (.int "1"))) (.whole 254) (some "N") := by
  have hone : Evaluates nestedTypes (fun _ => throw .notText) 0 {} {} (.conversion "N" (.int "1"))
      (.whole 1) (some "N") := rfl
  refine ⟨rfl, grounded_nestedFile, endsIn_N rfl, ?_⟩
  have htypes : Types.ofFiles [nestedFile] = .ok nestedTypes := rfl
  obtain ⟨-, h⟩ := (complement_of_operand nestedTypes).2 rfl htypes grounded_nestedFile hone rfl
  obtain ⟨last, -, hlast, -, h⟩ := h "N" rfl
  cases hlast "uint8" (endsIn_N (by decide +kernel))
  exact (h 8 rfl (by decide) (by decide)).1.mpr (endsIn_N rfl)

/-- The other one is made of it too, but for the parentheses. -/
theorem endsIn_M : EndsIn nestedFile.types withoutParens "M" "uint8" :=
  (endsIn_N (by decide +kernel)).head
    ⟨"(N)", ⟨_, .tail _ (.head _), rfl, rfl⟩, by decide +kernel⟩

def nestedSources : Sources := [("a.go", nestedSource)]

/-- The table of the file. -/
def nestedTable : SymbolTable where
  package := .str "p"
  types := [⟨.str "N", .null⟩, ⟨.str "M", .null⟩]
  constants := [
    ⟨.str "A", .str "N", .exact (.whole 1), .str "a.go", .int 0, .null⟩,
    ⟨.str "B", .str "N", .exact (.whole 254), .str "a.go", .int 1, .null⟩,
    ⟨.str "C", .str "M", .exact (.whole 1), .str "a.go", .int 2, .null⟩,
    ⟨.str "D", .str "M", .exact (.whole (-2)), .str "a.go", .int 3, .null⟩]

/-- The constant `C` is one of the type `M`, which `uint8` is at the end of.  Its complement is
negative, while that of the constant `A` of the type `N` is not. -/
theorem complement_through_parentheses_negative :
    SourceFile.parse nestedSource = some nestedFile ∧ Grounded nestedFile.types withoutParens ∧
      EndsIn nestedFile.types withoutParens "M" "uint8" ∧
      load nestedSources = .ok nestedTable ∧
      (∃ r ∈ nestedTable.constants, r.name = .str "D" ∧ r.type = .str "M" ∧
        r.value = .exact (.whole (-2))) ∧ (-2 : Int) ≠ 2 ^ 8 - 1 - 1 := by
  refine ⟨parse_nestedSource, grounded_nestedFile, endsIn_M, ?_,
    ⟨_, .tail _ (.tail _ (.tail _ (.head _))), rfl, rfl, rfl⟩, by decide⟩
  rw [load, nestedSources, parseAll_singleton parse_nestedSource rfl, ok_bind]
  rfl

end EnumHelpers.Package
