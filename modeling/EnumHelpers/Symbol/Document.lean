import EnumHelpers.Symbol.Table

/-!
# Symbol tables — documents

Reading a symbol table from a JSON object.  The object names a package, and lists types, each a
text or an object with a name, and constants, each an object with a name.
-/

namespace EnumHelpers.SymbolTable

/-- The items of a value that can be gone through: a list, the characters of a text, or the keys
of an object. -/
def items : Json → Except Failure (List Json)
  | .arr vs => .ok vs
  | .str s => .ok (s.toList.map fun c => .str (String.singleton c))
  | .obj fields => .ok (fields.map fun (k, _) => .str k)
  | _ => .error .wrongKind

/-- The items of a field; a field that is absent has none. -/
def fieldItems (key : String) (fields : OrderedMap String Json) : Except Failure (List Json) :=
  match OrderedMap.get? key fields with
  | some v => items v
  | none => .ok []

/-- The type that an entry declares. -/
def typeOfEntry (entry : Json) : Except Failure TypeHandle :=
  let refuse : Except Failure TypeHandle := do
    let s ← Failure.shown entry
    .error (.resolution (.badTypeEntry s))
  match entry with
  | .str s => .ok ⟨.str s, .null⟩
  | .obj fields =>
    let name := Json.field "name" fields
    if name.isGiven then .ok ⟨name, Json.field "alias_of" fields⟩ else refuse
  | _ => refuse

/-- The constant that the entry at a position declares. -/
def constantOfEntry (position : Nat) (entry : Json) : Except Failure ConstantRecord :=
  let refuse : Except Failure ConstantRecord := do
    let s ← Failure.shown entry
    .error (.resolution (.badConstantEntry s))
  match entry with
  | .obj fields =>
    match OrderedMap.get? "name" fields with
    | some name => .ok {
        name
        type := Json.field "type" fields
        value := Recorded.ofJson (Json.field "value" fields)
        unit := (OrderedMap.get? "unit" fields).getD (.str "")
        order := (OrderedMap.get? "order" fields).getD (.int position)
        comment := Json.field "comment" fields }
    | none => refuse
  | _ => refuse

/-- The constants that the entries from a position on declare. -/
def constantsOfEntries : Nat → List Json → Except Failure (List ConstantRecord)
  | _, [] => .ok []
  | position, entry :: rest => do
    let r ← constantOfEntry position entry
    let more ← constantsOfEntries (position + 1) rest
    .ok (r :: more)

/-- The symbol table that a document holds. -/
def ofJson : Json → Except Failure SymbolTable
  | .obj fields => do
    let package := Json.field "package" fields
    if !package.isGiven then .error (.resolution .noPackageName)
    else
      let typeEntries ← fieldItems "types" fields
      let types ← typeEntries.mapM typeOfEntry
      let constantEntries ← fieldItems "constants" fields
      let constants ← constantsOfEntries 0 constantEntries
      if types.all (·.name.isKey) then .ok ⟨package, types, constants⟩ else .error .wrongKind
  | _ => .error (.resolution .tableNotObject)

end EnumHelpers.SymbolTable
