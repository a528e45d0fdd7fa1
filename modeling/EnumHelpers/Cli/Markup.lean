import EnumHelpers.Failure
import EnumHelpers.Text.Blank
import EnumHelpers.Text.Lines

/-!
# Command line — marked-up messages

Messages are printed as text with tags in brackets, which are not shown.  A backslash before a
bracket shows it.  A closing tag has to close a tag that is open; tags that stay open do no harm.
A tab is shown as blanks up to the next stop.
-/

namespace EnumHelpers.Cli
open Text

/-- The characters that a tag begins with. -/
def startsTag (c : Char) : Bool :=
  ('a' ≤ c && c ≤ 'z') || c == '#' || c == '/' || c == '@'

/-- The inside of a tag at the front of a text, with the text after its closing bracket. -/
def takeTag : List Char → Option (List Char × List Char)
  | '[' :: c :: rest =>
    if startsTag c then
      match rest.span fun c => c != '[' && c != ']' with
      | (inside, ']' :: after) => some (c :: inside, after)
      | _ => none
    else none
  | _ => none

/-- A piece of a marked-up text, with its place. -/
inductive Span where
  | shown (cs : List Char)
  | tag (place : Nat) (inside : List Char)

/-- The pieces of a marked-up text from a place on. -/
def spansFrom : Nat → Nat → List Char → List Span
  | 0, _, _ => []
  | _, _, [] => []
  | fuel + 1, place, c :: rest =>
    let slashes := (c :: rest).takeWhile (· == '\\')
    let body := (c :: rest).drop slashes.length
    match takeTag body with
    | some (inside, after) =>
      let length := inside.length + 2
      let next := place + slashes.length + length
      let kept := List.replicate (slashes.length / 2) '\\'
      if slashes.length % 2 = 1 then
        .shown (kept ++ body.take length) :: spansFrom fuel next after
      else .shown kept :: .tag (place + slashes.length) inside :: spansFrom fuel next after
    | none =>
      let n := max slashes.length 1
      let kept := if body.head? = some '[' then slashes.dropLast else slashes
      .shown (if slashes.isEmpty then [c] else kept) ::
        spansFrom fuel (place + n) ((c :: rest).drop n)

/-- The pieces of a marked-up text. -/
def spansOf (cs : List Char) : List Span := spansFrom (cs.length + 1) 0 cs

/-- The name of a tag: what stands before an equals sign. -/
def tagName (inside : List Char) : List Char := inside.takeWhile (· ≠ '=')

/-- The name of a style, without regard to case and outer blanks. -/
def styleName (cs : List Char) : List Char := (trimChars cs).map Char.toLower

/-- The text that pieces show, the names of the open tags being given. -/
def showSpans : List (List Char) → List Span → Except Failure (List Char)
  | _, [] => .ok []
  | opened, .shown cs :: rest => do
    let more ← showSpans opened rest
    .ok (cs ++ more)
  | opened, .tag place inside :: rest =>
    match tagName inside with
    | '/' :: name =>
      let style := styleName name
      if style.isEmpty then
        match opened with
        | _ :: opened => showSpans opened rest
        | [] => .error (.badMarkup
            ("closing tag '[/]' at position " ++ toString place ++ " has nothing to close"))
      else if opened.contains style then showSpans (opened.erase style) rest
      else .error (.badMarkup ("closing tag '[" ++ String.ofList inside ++ "]' at position " ++
        toString place ++ " doesn't match any open tag"))
    | name => showSpans (styleName name :: opened) rest

/-- The characters that are printed: some controls are left out. -/
def isPrinted (c : Char) : Bool :=
  !(c == '\x07' || c == '\x08' || c == '\x0b' || c == '\x0c' || c == '\r')

/-- The text that a marked-up text shows. -/
def plainOfMarkup (s : String) : Except Failure String := do
  let cs ← showSpans [] (spansOf s.toList)
  .ok (String.ofList (cs.filter isPrinted))

/-- The columns from one tab stop to the next. -/
def tabStop : Nat := 8

/-- The columns that a character takes: the marks of success and failure take two. -/
def columnsOf (c : Char) : Nat := if c == '✅' || c == '❌' then 2 else 1

/-- The rest of a line from a column on, with blanks up to the next stop in place of each tab. -/
def fillTabs : Nat → List Char → List Char
  | _, [] => []
  | column, c :: rest =>
    if c == '\t' then
      let gap := tabStop - column % tabStop
      List.replicate gap ' ' ++ fillTabs (column + gap) rest
    else c :: fillTabs (column + columnsOf c) rest

/-- The lines that a marked-up text shows, without blanks at their ends. -/
def printedLines (s : String) : Except Failure (List String) := do
  let plain ← plainOfMarkup s
  .ok ((splitAtChar '\n' plain.toList).map fun line =>
    String.ofList (trimEndChars (fillTabs 0 line)))

end EnumHelpers.Cli
