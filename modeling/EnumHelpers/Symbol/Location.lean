import EnumHelpers.File.Tree
import EnumHelpers.Json.Reader
import EnumHelpers.Symbol.Address
import EnumHelpers.Symbol.Document

/-!
# Symbol tables — locations

A symbol table is loaded from a document at a location: a file, or an address on the network.
What comes of fetching an address is given.
-/

namespace EnumHelpers

/-- What comes of fetching an address. -/
inductive Response where
  | timeout
  | noConnection
  | failed (reason : String)
  /-- An answer whose status says that the request is at fault, or the one who answers it. -/
  | refused (status : Int)
  /-- Any other answer; its body may be no JSON document, for a reason. -/
  | answer (body : Except String Json)

namespace SymbolTable

/-- The document in a file. -/
def readFile (tree : File.Tree) (path : File.Path) : Except Failure Json :=
  if !tree.exists? path then .error (.loading (.fileNotFound path.text))
  else
    match tree.read path with
    | .error trouble => .error (.loading (.fileUnreadable path.text (trouble.message path)))
    | .ok content =>
      match Text.textOfGlyphs content with
      | none => .error .notText
      | some text =>
        match Json.read text with
        | .ok v => .ok v
        | .error .malformed => .error (.loading (.fileNotJson path.text))
        | .error (.integer cause) => .error (.number cause)

/-- The document that an address answers with. -/
def fetch (response : Response) (url : String) : Except Failure Json := do
  let address ← Address.ofString url
  if address.scheme = "" ∨ address.host = "" then .error (.loading (.badAddress url))
  else
    match response with
    | .timeout => .error (.loading (.timeout url))
    | .noConnection => .error (.loading (.noConnection url))
    | .failed reason => .error (.loading (.requestFailed url reason))
    | .refused status => .error (.loading (.httpStatus (toString status) url))
    | .answer (.ok v) => .ok v
    | .answer (.error reason) => .error (.loading (.answerNotJson url reason))

/-- The symbol table at a location. -/
def loadFrom (tree : File.Tree) (response : Response) (location : String) :
    Except Failure SymbolTable := do
  let remote ← Address.isRemote location
  let document ← if remote then fetch response location
    else readFile tree (File.Path.ofString location)
  ofJson document

end SymbolTable
end EnumHelpers
