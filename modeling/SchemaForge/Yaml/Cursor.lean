/-!
# Places in a YAML text

A cursor stands at a place of a text and knows its line and column. A problem names the place where
it was found, and shows the line there.

* `Cursor.advance`: the cursor some characters further on.
* `Mark.render`: a place with the text around it.
* `Problem.message`: a problem with its places.
-/

namespace SchemaForge.Yaml

/-! ## Characters -/

/-- The character that a cursor sees at the end of a text. No text holds it. -/
abbrev endMark : Char := '\x00'

/-- The characters that break a line. -/
def isBreak (c : Char) : Bool :=
  c == '\r' || c == '\n' || c == '\x85' || c == '\u2028' || c == '\u2029'

/-- Whether a line or the text ends at a character. -/
def endsLine (c : Char) : Bool := c == endMark || isBreak c

/-- Whether a word ends at a character: at a space or with the line. -/
def endsWord (c : Char) : Bool := c == ' ' || endsLine c

/-- Whether an indicator ends at a character: at a space or a tab, or with the line. -/
def endsIndicator (c : Char) : Bool := c == '\t' || endsWord c

/-- The characters that a text may hold. -/
def isAllowed (c : Char) : Bool :=
  c == '\t' || c == '\n' || c == '\r' || (' ' ≤ c && c ≤ '~') || c == '\x85'
    || ('\xa0' ≤ c && c ≤ '\ufffd') || 0x10000 ≤ c.toNat

/-! ## Places -/

/-- A place in a text: the number of characters before it, its line and its column. -/
structure Mark where
  index : Nat := 0
  line : Nat := 0
  column : Nat := 0
  deriving DecidableEq, Repr, Inhabited

/-- A place in a text, with the text from there on. -/
structure Cursor where
  rest : List Char
  mark : Mark := {}
  deriving Repr, Inhabited

namespace Cursor

/-- The character some places further on. -/
def peek (c : Cursor) (offset : Nat) : Char := c.rest.getD offset endMark

/-- The character at the cursor. -/
def char (c : Cursor) : Char := c.peek 0

/-- The column of the cursor. -/
def column (c : Cursor) : Nat := c.mark.column

/-- Whether a character ends a line, with the one after it: a carriage return before a line feed
does not. -/
def endsLineBefore (c : Char) (rest : List Char) : Bool :=
  if c == '\r' then rest.head? != some '\n' else isBreak c

/-- The cursor one character further on. A byte order mark has no width. -/
def next (c : Cursor) : Cursor :=
  match c.rest with
  | [] => c
  | char :: rest =>
    let m := c.mark
    let mark : Mark :=
      if endsLineBefore char rest then { index := m.index + 1, line := m.line + 1, column := 0 }
      else if char == '\ufeff' then { m with index := m.index + 1 }
      else { m with index := m.index + 1, column := m.column + 1 }
    { rest, mark }

/-- The cursor some characters further on. -/
def advance (c : Cursor) : Nat → Cursor
  | 0 => c
  | n + 1 => c.next.advance n

/-- The characters from the cursor on as far as a condition holds, and the cursor after them. -/
def span (c : Cursor) (p : Char → Bool) : List Char × Cursor :=
  let taken := c.rest.takeWhile p
  (taken, c.advance taken.length)

/-- The cursor after all characters for which a condition holds. -/
def skipWhile (c : Cursor) (p : Char → Bool) : Cursor := (c.span p).2

/-- Whether a text starts at the cursor. -/
def startsWith (c : Cursor) (s : String) : Bool := s.toList.isPrefixOf c.rest

/-- Whether one of two marks of a document stands at the cursor. -/
def isSeparator (c : Cursor) : Bool :=
  (c.startsWith "---" || c.startsWith "...") && endsIndicator (c.peek 3)

/-- A line break at the cursor, as it counts in a text, and the cursor after it. There is nothing
where no line breaks. -/
def lineBreak (c : Cursor) : List Char × Cursor :=
  let char := c.char
  if char == '\u2028' || char == '\u2029' then ([char], c.next)
  else if isBreak char then
    if c.startsWith "\r\n" then (['\n'], c.advance 2) else (['\n'], c.next)
  else ([], c)

end Cursor

/-! ## Problems -/

namespace Mark

/-- The characters at the end of a list that stand on one line. -/
def lineEnd (before : List Char) : List Char := (before.reverse.takeWhile (!isBreak ·)).reverse

/-- The part of a line before a place. A long part is cut. -/
def showBefore (before : List Char) : String :=
  let line := lineEnd before
  if line.length < 37 then String.ofList line
  else " ... " ++ String.ofList (line.drop (line.length - 32))

/-- The part of a line from a place on. A long part is cut. -/
def showAfter (after : List Char) : String :=
  let line := after.takeWhile (!isBreak ·)
  if line.length < 37 then String.ofList line
  else String.ofList (line.take 32) ++ " ... "

/-- A place with the text around it and a caret under it. -/
def render (m : Mark) (text : List Char) : String :=
  let before := showBefore (text.take m.index)
  "  in \"<unicode string>\", line " ++ toString (m.line + 1) ++ ", column "
    ++ toString (m.column + 1) ++ ":\n    " ++ before ++ showAfter (text.drop m.index) ++ "\n"
    ++ String.ofList (List.replicate (4 + before.length) ' ') ++ "^"

end Mark

/-- Something that is wrong with a text: what was being read and where it began, what was found and
where. -/
structure Problem where
  context : Option String := none
  contextMark : Option Mark := none
  problem : String
  mark : Mark
  deriving DecidableEq, Repr, Inhabited

/-- The text of a problem. Of two equal places only one is shown. -/
def Problem.message (p : Problem) (text : List Char) : String :=
  let contextPlace := match p.contextMark with
    | some m =>
      if m.line == p.mark.line && m.column == p.mark.column then [] else [m.render text]
    | none => []
  "\n".intercalate (p.context.toList ++ contextPlace ++ [p.problem, p.mark.render text])

end SchemaForge.Yaml
