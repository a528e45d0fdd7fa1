import EnumHelpers.Failure
import EnumHelpers.Text.Lines

/-!
# Symbol tables — addresses

An address of a document on the network: the scheme before its first colon and the host after two
slashes.  Controls and blanks in front of an address are passed over, as are tabulators and line
breaks anywhere in it.  A host in brackets has to be a numeric address of the sixth version or one
of a version yet to come, and no character of a host may turn into punctuation when it is brought
into its canonical form.
-/

namespace EnumHelpers

/-- The scheme and the host of an address; empty where there is none. -/
structure Address where
  scheme : String
  host : String
  deriving DecidableEq, Repr

namespace Address
open Text

/-- A character of a scheme. -/
def isSchemeChar (c : Char) : Bool :=
  c.isAlphanum || c == '+' || c == '-' || c == '.'

/-- The characters of an address that count. -/
def significant (cs : List Char) : List Char :=
  (cs.dropWhile fun c => c.toNat ≤ 0x20).filter fun c => c != '\t' && c != '\r' && c != '\n'

/-- The scheme at the front of an address, with the text after its colon. -/
def takeScheme (cs : List Char) : String × List Char :=
  let (before, after) := cs.span (· != ':')
  match before, after with
  | first :: _, ':' :: rest =>
    if first.isAlpha && before.all isSchemeChar then
      (String.ofList (before.map Char.toLower), rest)
    else ("", cs)
  | _, _ => ("", cs)

/-- The host at the front of an address without its scheme. -/
def takeHost : List Char → List Char
  | '/' :: '/' :: rest => rest.takeWhile fun c => c != '/' && c != '?' && c != '#'
  | _ => []

/-- A number of an address of the fourth version. -/
def isOctet (cs : List Char) : Bool :=
  !cs.isEmpty && cs.all Char.isDigit && cs.length ≤ 3 && (cs.length = 1 || cs.head? != some '0') &&
    (cs.foldl (fun n c => n * 10 + (c.toNat - 0x30)) 0) ≤ 255

/-- Whether a text is an address of the fourth version. -/
def isVersion4 (cs : List Char) : Bool :=
  let parts := splitAtChar '.' cs
  parts.length == 4 && parts.all isOctet

/-- A number of an address of the sixth version. -/
def isHextet (cs : List Char) : Bool :=
  !cs.isEmpty && cs.length ≤ 4 &&
    cs.all fun c => c.isDigit || ('a' ≤ c && c ≤ 'f') || ('A' ≤ c && c ≤ 'F')

/-- The parts of an address of the sixth version, an address of the fourth version at its end
taken for two numbers. -/
def version6Parts (cs : List Char) : Option (List (List Char)) :=
  let parts := splitAtChar ':' cs
  match parts.getLast? with
  | some last =>
    if last.contains '.' then
      if isVersion4 last then some (parts.dropLast ++ [['0'], ['0']]) else none
    else some parts
  | none => none

/-- Whether the parts of an address of the sixth version fit together: eight numbers, or fewer
with one run of zeros left out. -/
def fitsVersion6 (parts : List (List Char)) : Bool :=
  let inner := (parts.drop 1).dropLast
  let gaps := inner.countP List.isEmpty
  let numbers := parts.filter (!·.isEmpty)
  let openFront := parts.head? == some []
  let openBack := parts.getLast? == some []
  if gaps = 0 then parts.length == 8 && !openFront && !openBack && numbers.all isHextet
  else
    gaps == 1 && numbers.length ≤ 7 && numbers.all isHextet &&
      (!openFront || inner.head? == some []) && (!openBack || inner.getLast? == some [])

/-- Whether a text is an address of the sixth version, with or without a zone. -/
def isVersion6 (cs : List Char) : Bool :=
  let (body, zone) := cs.span (· != '%')
  let zoneOk := match zone with
    | [] => true
    | _ :: name => !name.isEmpty && !name.contains '%'
  zoneOk && !cs.contains '/' && 3 ≤ (splitAtChar ':' body).length &&
    match version6Parts body with
    | some parts => parts.length ≤ 9 && fitsVersion6 parts
    | none => false

/-- Whether a text has the form of an address of a version yet to come. -/
def isFutureVersion (cs : List Char) : Bool :=
  match cs with
  | 'v' :: rest =>
    let (version, after) := rest.span fun c =>
      c.isDigit || ('a' ≤ c && c ≤ 'f') || ('A' ≤ c && c ≤ 'F')
    !version.isEmpty && match after with
      | '.' :: tail => !tail.isEmpty
      | _ => false
  | _ => false

/-- What is wrong with the host in brackets. -/
def bracketFault? (host : List Char) : Option String :=
  if host.head? = some 'v' then
    if isFutureVersion host then none else some "IPvFuture address is invalid"
  else if isVersion4 host then some "An IPv4 address cannot be in brackets"
  else if isVersion6 host then none
  else some (quoted (String.ofList host) ++ " does not appear to be an IPv4 or IPv6 address")

/-- The characters whose canonical form holds the punctuation of addresses. -/
def punctuationLike : List Nat := [
  0x2047, 0x2048, 0x2049, 0x2100, 0x2101, 0x2105, 0x2106, 0x2A74, 0xFE13, 0xFE16, 0xFE55, 0xFE56,
  0xFE5F, 0xFE6B, 0xFF03, 0xFF0F, 0xFF1A, 0xFF1F, 0xFF20]

/-- What is wrong with a host. -/
def hostFault? (host : List Char) : Option String :=
  let opened := host.contains '['
  let closed := host.contains ']'
  let inBrackets := if opened && closed then
      bracketFault? (((host.dropWhile (· != '[')).drop 1).takeWhile (· != ']'))
    else if opened || closed then some "Invalid IPv6 URL"
    else none
  match inBrackets with
  | some reason => some reason
  | none =>
    if host.any fun c => punctuationLike.contains c.toNat then
      some ("netloc '" ++ String.ofList host ++
        "' contains invalid characters under NFKC normalization")
    else none

/-- The address that a text is. -/
def ofString (text : String) : Except Failure Address :=
  let (scheme, rest) := takeScheme (significant text.toList)
  let host := takeHost rest
  match hostFault? host with
  | some reason => .error (.badAddress reason)
  | none => .ok ⟨scheme, String.ofList host⟩

/-- Whether a text is the address of a document that can be fetched. -/
def isRemote (text : String) : Except Failure Bool := do
  let address ← ofString text
  .ok (address.scheme = "http" || address.scheme = "https")

end Address
end EnumHelpers
