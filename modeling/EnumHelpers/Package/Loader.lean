import EnumHelpers.Package.Load

/-!
# Packages — loaders

A loader reads packages one after another, and holds what it has found of the last one: the declared
types, the declarations of constants by name and in order, the values found and the constants that
are being evaluated.  It drops all of it before it reads the next package.  When a failure stops it,
it is left with what it had found until then.
-/

namespace EnumHelpers.Package
open Source

/-- A loader, with what it holds. -/
structure Loader where
  types : Types := {}
  /-- The declarations by name; of several with one name the last. -/
  declared : OrderedMap String ConstantDecl := []
  /-- All declarations in order. -/
  ordered : List ConstantDecl := []
  progress : Progress := {}
  deriving DecidableEq, Repr

/-- What a loader does: a failure may stop it, and what it found on its way stays found. -/
abbrev Loading := ExceptT Failure (StateM Loader)

namespace Loader

/-- A loading that needs no loader. -/
def settle {α : Type} (outcome : Except Failure α) : Loading α := ExceptT.mk (pure outcome)

/-- The loader drops all that it holds. -/
def reset : Loading Unit :=
  modify fun loader => { loader with types := {}, declared := [], ordered := [], progress := {} }

/-- A declared type is taken up. -/
def enterType (spec : TypeSpec) : Loading Unit := do
  let loader ← get
  let types ← settle (loader.types.enter spec)
  set { loader with types }

/-- The loader with one more declaration of a constant. -/
def including (loader : Loader) (decl : ConstantDecl) : Loader :=
  { loader with
    declared := OrderedMap.put decl.name decl loader.declared
    ordered := loader.ordered ++ [decl] }

/-- A declared constant is taken up. -/
def enterConstant (decl : ConstantDecl) : Loading Unit := modify (·.including decl)

/-- The constants of a group are taken up from its declaration with number `iota` on; the result is
the number of names before the end of the group. -/
def enterGroup (unit : String) (notes : List Note) :
    InForce → Nat → Nat → List ConstSpec → Loading Nat
  | _, _, order, [] => pure order
  | before, iota, order, spec :: rest => do
    let inForce ← settle (before.at spec)
    (ofNames unit inForce iota (trailing? notes spec.stop) 0 order spec.names).forM enterConstant
    enterGroup unit notes inForce (iota + 1) (order + spec.names.length) rest

/-- The constants of the groups of a file are taken up, `order` names standing before them. -/
def enterGroups (unit : String) (notes : List Note) : Nat → List (List ConstSpec) → Loading Unit
  | _, [] => pure ()
  | order, group :: rest => do
    let order ← enterGroup unit notes {} 0 order group
    enterGroups unit notes order rest

/-- The constants of a file are taken up. -/
def enterConstants (unit : String) (file : SourceFile) : Loading Unit := do
  let notes ← settle (notesOf file.comments)
  enterGroups unit notes 0 file.constants

/-- The value and type recorded for a constant. -/
def record (decl : ConstantDecl) : Loading (ConstantDecl × Recorded × Option String) := do
  let loader ← get
  let (outcome, progress) :=
    (searchFor loader.types (loader.declared.map Prod.snd) decl.name).run loader.progress
  set { loader with progress }
  let here ← settle (recorded decl outcome)
  pure (decl, here)

/-- The symbol table of the package with the given files: first their types are taken up, then
their constants, and all of these are recorded. -/
def collect (package : String) (files : List (String × SourceFile)) : Loading SymbolTable := do
  files.forM fun (_, file) => file.types.forM enterType
  files.forM fun (unit, file) => enterConstants unit file
  let records ← (← get).ordered.mapM record
  let loader ← get
  pure ⟨.str package, loader.types.aliases.map handleOf, records.map recordOf⟩

/-- The symbol table of a package. -/
def loadSources (sources : Sources) : Loading SymbolTable := do
  reset
  let files ← settle (parseAll sources)
  let package ← settle (onePackage (files.map fun (_, package, _) => package))
  collect package (files.map fun (unit, _, file) => (unit, file))

/-- The outcomes of loads by one loader, one after another. -/
def loadEach : Loader → List Sources → List (Except Failure SymbolTable)
  | _, [] => []
  | loader, sources :: rest =>
    let (outcome, after) := (loadSources sources).run loader
    outcome :: after.loadEach rest

end Loader
end EnumHelpers.Package
