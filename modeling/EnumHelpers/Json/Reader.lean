import EnumHelpers.Json.Basic
import EnumHelpers.Number.Fraction

/-!
# JSON — reading

Reading a JSON document.  A key that is repeated in an object keeps its first place and its last
value; the names of the infinities and of the number that is none are admitted; no control
character may stand in a text.  Integers are read up to a number of digits, `Number.digitLimit`
unless the caller says otherwise.
-/

namespace EnumHelpers.Json
open Number

/-- Why a text is no JSON document. -/
inductive ReadError where
  | malformed
  | integer (cause : Fault)
  deriving DecidableEq, Repr

/-- The text after its leading white space. -/
def skipSpace (cs : List Char) : List Char :=
  cs.dropWhile fun c => c == ' ' || c == '\t' || c == '\n' || c == '\r'

/-- The value of four hexadecimal digits at the front of a text. -/
def fourHex? : List Char → Option (Nat × List Char)
  | a :: b :: c :: d :: rest => do
    let a ← digitIn? 16 a
    let b ← digitIn? 16 b
    let c ← digitIn? 16 c
    let d ← digitIn? 16 d
    some (((a * 16 + b) * 16 + c) * 16 + d, rest)
  | _ => none

/-- The character of a one-letter escape. -/
def shortEscape? : Char → Option Char
  | '"' => some '"'
  | '\\' => some '\\'
  | '/' => some '/'
  | 'b' => some '\x08'
  | 'f' => some '\x0c'
  | 'n' => some '\n'
  | 'r' => some '\r'
  | 't' => some '\t'
  | _ => none

/-- The low half of a surrogate pair, written as an escape at the front of a text. -/
def lowSurrogate? : List Char → Option (Nat × List Char)
  | '\\' :: 'u' :: rest =>
    match fourHex? rest with
    | some (n, after) => if 0xDC00 ≤ n ∧ n ≤ 0xDFFF then some (n, after) else none
    | none => none
  | _ => none

/-- The character of a code unit, with the text after it.  Two halves of a surrogate pair are
one character, and a half by itself is the replacement character. -/
def unitChar (n : Nat) (rest : List Char) : Char × List Char :=
  if 0xD800 ≤ n ∧ n ≤ 0xDBFF then
    match lowSurrogate? rest with
    | some (low, after) => (Char.ofNat (0x10000 + (n - 0xD800) * 0x400 + (low - 0xDC00)), after)
    | none => ('\uFFFD', rest)
  else if 0xDC00 ≤ n ∧ n ≤ 0xDFFF then ('\uFFFD', rest)
  else (Char.ofNat n, rest)

/-- The characters up to the closing quote, with the text after it. -/
def readChars : Nat → List Char → List Char → Except ReadError (List Char × List Char)
  | 0, _, _ => .error .malformed
  | _ + 1, _, [] => .error .malformed
  | _ + 1, acc, '"' :: rest => .ok (acc.reverse, rest)
  | fuel + 1, acc, '\\' :: 'u' :: rest =>
    match fourHex? rest with
    | some (n, after) =>
      let (c, after) := unitChar n after
      readChars fuel (c :: acc) after
    | none => .error .malformed
  | fuel + 1, acc, '\\' :: c :: rest =>
    match shortEscape? c with
    | some e => readChars fuel (e :: acc) rest
    | none => .error .malformed
  | fuel + 1, acc, c :: rest =>
    if c = '\\' ∨ c.toNat < 0x20 then .error .malformed else readChars fuel (c :: acc) rest

/-- The text after an opening quote, with what follows its closing quote. -/
def readText (cs : List Char) : Except ReadError (String × List Char) := do
  let (chars, rest) ← readChars (cs.length + 1) [] cs
  .ok (String.ofList chars, rest)

/-- The plain digits at the front of a text, with what follows them. -/
def spanDigits (cs : List Char) : List Char × List Char :=
  cs.span fun c => '0' ≤ c && c ≤ '9'

/-- The digits of a whole number: a zero stands alone. -/
def wholeDigits? : List Char → Option (List Char × List Char)
  | '0' :: rest => some (['0'], rest)
  | cs =>
    let (digits, rest) := spanDigits cs
    if digits.isEmpty then none else some (digits, rest)

/-- The digits after a point, when there are any. -/
def fractionDigits? : List Char → Option (List Char × List Char)
  | '.' :: rest =>
    let (digits, after) := spanDigits rest
    if digits.isEmpty then none else some (digits, after)
  | _ => none

/-- An exponent, when there is one. -/
def exponent? : List Char → Option (Int × List Char)
  | e :: rest =>
    if e = 'e' ∨ e = 'E' then
      let (negative, body) := match rest with
        | '-' :: r => (true, r)
        | '+' :: r => (false, r)
        | r => (false, r)
      let (digits, after) := spanDigits body
      if digits.isEmpty then none
      else
        let n : Int := ofDigits 10 0 (digits.filterMap (digitIn? 10))
        some (if negative then -n else n, after)
    else none
  | [] => none

/-- The number nearest to `digits * 10 ^ e`. -/
def nearestFloat (negative : Bool) (digits : List Char) (e : Int) : Binary64 :=
  let n := ofDigits 10 0 (digits.filterMap (digitIn? 10))
  if n = 0 then .finite negative 0 Binary64.leastExponent
  else
    let top := e + digits.length
    if 400 < top - (digits.takeWhile (· == '0')).length then .infinite negative
    else if top < -400 then .finite negative 0 Binary64.leastExponent
    else match e with
      | .ofNat k => Binary64.ofRatio negative (n * Nat.pow 10 k) 1
      | .negSucc k => Binary64.ofRatio negative n (Nat.pow 10 (k + 1))

/-- The number whose digits come next; an integer may have at most `limit` digits. -/
def readNumber (limit : Option Nat) (negative : Bool) (cs : List Char) :
    Except ReadError (Json × List Char) :=
  match wholeDigits? cs with
  | none => .error .malformed
  | some (whole, rest) =>
    match fractionDigits? rest, exponent? rest with
    | some (fraction, after), _ =>
      let (e, after) := (exponent? after).getD (0, after)
      .ok (.float (nearestFloat negative (whole ++ fraction) (e - fraction.length)), after)
    | none, some (e, after) => .ok (.float (nearestFloat negative whole e), after)
    | none, none =>
      if limit.any (· < whole.length) then .error (.integer (.tooManyDigits whole.length))
      else
        let n := ofDigits 10 0 (whole.filterMap (digitIn? 10))
        .ok (.int (if negative then -(n : Int) else n), rest)

/-- What follows a word at the front of a text. -/
def after? (word : String) (cs : List Char) : Option (List Char) :=
  if word.toList.isPrefixOf cs then some (cs.drop word.length) else none

/-- A value that is a single word or a number. -/
def readScalar (limit : Option Nat) (cs : List Char) : Except ReadError (Json × List Char) :=
  match after? "null" cs, after? "true" cs, after? "false" cs with
  | some rest, _, _ => .ok (.null, rest)
  | _, some rest, _ => .ok (.bool true, rest)
  | _, _, some rest => .ok (.bool false, rest)
  | none, none, none =>
    match after? "NaN" cs, after? "Infinity" cs, after? "-Infinity" cs with
    | some rest, _, _ => .ok (.float .notANumber, rest)
    | _, some rest, _ => .ok (.float (.infinite false), rest)
    | _, _, some rest => .ok (.float (.infinite true), rest)
    | none, none, none =>
      match cs with
      | '-' :: rest => readNumber limit true rest
      | _ => readNumber limit false cs

mutual

/-- The value at the front of a text that has no leading white space. -/
def readValue (limit : Option Nat) : Nat → List Char → Except ReadError (Json × List Char)
  | 0, _ => .error .malformed
  | fuel + 1, cs =>
    match cs with
    | '"' :: rest => do
      let (s, rest) ← readText rest
      .ok (.str s, rest)
    | '[' :: rest =>
      match skipSpace rest with
      | ']' :: rest => .ok (.arr [], rest)
      | rest => readItems limit fuel [] rest
    | '\x7b' :: rest =>
      match skipSpace rest with
      | '\x7d' :: rest => .ok (.obj [], rest)
      | rest => readFields limit fuel [] rest
    | cs => readScalar limit cs

/-- The items from here to the closing bracket, after those already read. -/
def readItems (limit : Option Nat) :
    Nat → List Json → List Char → Except ReadError (Json × List Char)
  | 0, _, _ => .error .malformed
  | fuel + 1, acc, cs => do
    let (v, rest) ← readValue limit fuel cs
    match skipSpace rest with
    | ',' :: rest => readItems limit fuel (v :: acc) (skipSpace rest)
    | ']' :: rest => .ok (.arr (v :: acc).reverse, rest)
    | _ => .error .malformed

/-- The fields from here to the closing brace, after those already read. -/
def readFields (limit : Option Nat) :
    Nat → List (String × Json) → List Char → Except ReadError (Json × List Char)
  | 0, _, _ => .error .malformed
  | fuel + 1, acc, cs =>
    match cs with
    | '"' :: rest => do
      let (key, rest) ← readText rest
      match skipSpace rest with
      | ':' :: rest =>
        let (v, rest) ← readValue limit fuel (skipSpace rest)
        let acc := OrderedMap.put key v acc
        match skipSpace rest with
        | ',' :: rest => readFields limit fuel acc (skipSpace rest)
        | '\x7d' :: rest => .ok (.obj acc, rest)
        | _ => .error .malformed
      | _ => .error .malformed
    | _ => .error .malformed

end

/-- The document a text spells, whose integers have at most `limit` digits. -/
def read (text : String) (limit : Option Nat := some digitLimit) :
    Except ReadError Json := do
  let cs := text.toList
  -- an opening bracket takes two units of fuel, and every other step has a character of its own
  let (v, rest) ← readValue limit (2 * cs.length + 1) (skipSpace cs)
  if (skipSpace rest).isEmpty then .ok v else .error .malformed

end EnumHelpers.Json
