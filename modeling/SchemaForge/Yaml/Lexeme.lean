import SchemaForge.Json.Reader
import SchemaForge.Value.Text
import SchemaForge.Yaml.Cursor

/-!
# Parts of a YAML text

What stands between two places of a text: scalars in their five styles, anchors, tags and
directives. Line breaks inside a scalar are folded by the rules of its style.

* `Scan.plain`, `Scan.quoted`, `Scan.block`: the text of a scalar.
* `Scan.anchor`, `Scan.tag`, `Scan.directive`: what else is written in a document.
-/

namespace SchemaForge.Yaml

/-- Moves a cursor on, or finds a problem. -/
abbrev Scan (α : Type) : Type := StateT Cursor (Except Problem) α

namespace Scan

/-! ## Steps -/

/-- The place of the cursor. -/
def here : Scan Mark := do return (← get).mark

/-- The character some places further on. -/
def peek (offset : Nat) : Scan Char := do return (← get).peek offset

/-- The character at the cursor. -/
def char : Scan Char := peek 0

/-- Moves on by some characters. -/
def skip (n : Nat) : Scan Unit := modify (·.advance n)

/-- Takes characters as far as a condition holds. -/
def takeWhile (p : Char → Bool) : Scan (List Char) := do
  let (taken, c) := (← get).span p
  set c
  return taken

/-- Passes over characters as far as a condition holds. -/
def dropWhile (p : Char → Bool) : Scan Unit := modify (·.skipWhile p)

/-- Takes a line break, if there is one. -/
def lineBreak : Scan (List Char) := do
  let (taken, c) := (← get).lineBreak
  set c
  return taken

/-- A problem at the cursor. -/
def fail {α : Type} (problem : String) (context : Option (String × Mark)) : Scan α := do
  throw { context := context.map (·.1), contextMark := context.map (·.2), problem, mark := ← here }

/-- A problem with the character at a place, of which something else was expected. -/
def unexpected {α : Type} (expected : String) (c : Char) (context : String × Mark) : Scan α :=
  fail ("expected " ++ expected ++ ", but found " ++ Text.inspect (String.singleton c))
    (some context)

/-- The characters of names. -/
def isNameChar (c : Char) : Bool := c.isAlphanum || c == '-' || c == '_'

/-- Passes over a comment. -/
def comment : Scan Unit := do
  if (← char) == '#' then dropWhile (!endsLine ·)

/-- The rest of a line, which may hold a comment only. -/
def restOfLine (context : String × Mark) : Scan Unit := do
  dropWhile (· == ' ')
  comment
  let c ← char
  if endsLine c then
    let _ ← lineBreak
  else unexpected "a comment or a line break" c context

/-! ## Anchors and tags -/

/-- The name of an anchor or an alias, after its indicator. -/
def anchor (context : String × Mark) : Scan String := do
  skip 1
  let name ← takeWhile isNameChar
  let c ← char
  let ends := endsIndicator c || "?:,]\x7d%@`".toList.contains c
  if name.isEmpty || !ends then unexpected "alphabetic or numeric character" c context
  else return String.ofList name

/-- The characters that may stand in a tag. -/
def isUriChar (c : Char) : Bool :=
  c.isAlphanum || "-;/?:@&=+$,_.!~*'()[]%".toList.contains c

/-- Bytes that are written as a percent sign and two digits each. -/
def escapedBytes (context : String × Mark) : Nat → Scan (List UInt8)
  | 0 => return []
  | fuel + 1 => do
    if (← char) == '%' then
      skip 1
      let expected := "URI escape sequence of 2 hexadecimal numbers"
      let some high := Json.hexValue? (← peek 0) | unexpected expected (← peek 0) context
      let some low := Json.hexValue? (← peek 1) | unexpected expected (← peek 1) context
      skip 2
      return UInt8.ofNat (16 * high + low) :: (← escapedBytes context fuel)
    else return []

/-- The text of a tag or a tag's start. -/
def uriChars (context : String × Mark) : Nat → Scan (List Char)
  | 0 => return []
  | fuel + 1 => do
    let plain ← takeWhile fun c => isUriChar c && c != '%'
    if (← char) == '%' then
      let start ← here
      let bytes ← escapedBytes context fuel
      match String.fromUTF8? ⟨bytes.toArray⟩ with
      | some s => return plain ++ s.toList ++ (← uriChars context fuel)
      | none =>
        throw {
          context := some context.1, contextMark := some context.2, mark := start
          problem := "'utf-8' codec can't decode byte 0x"
            ++ String.ofList (Text.hex 2 (bytes.headD 0).toNat)
            ++ " in position 0: invalid start byte" }
    else return plain

/-- A tag's text, which is not empty. -/
def uri (name : String) (start : Mark) : Scan String := do
  let cs ← uriChars ("while scanning a " ++ name, start) ((← get).rest.length + 1)
  if cs.isEmpty then unexpected "URI" (← char) ("while parsing a " ++ name, start)
  else return String.ofList cs

/-- The handle of a tag: `!`, or a name between two of them. -/
def tagHandle (name : String) (start : Mark) : Scan String := do
  let context := ("while scanning a " ++ name, start)
  if (← char) != '!' then unexpected "'!'" (← char) context
  else
    skip 1
    if (← char) == ' ' then return "!"
    else
      let name ← takeWhile isNameChar
      if (← char) != '!' then unexpected "'!'" (← char) context
      else
        skip 1
        return "!" ++ String.ofList name ++ "!"

/-- Whether a tag has a handle before its text: an exclamation mark after the first, before the tag
ends. -/
def hasHandle (c : Cursor) : Bool :=
  (c.rest.tail.takeWhile fun c => !endsWord c).contains '!'

/-- A tag: a handle, if it has one, and a text. -/
def tag (start : Mark) : Scan (Option String × String) := do
  let first ← peek 1
  let found ←
    if first == '<' then
      skip 2
      let text ← uri "tag" start
      if (← char) != '>' then unexpected "'>'" (← char) ("while parsing a tag", start)
      else
        skip 1
        pure (none, text)
    else if endsIndicator first then
      skip 1
      pure (none, "!")
    else if hasHandle (← get) then
      let handle ← tagHandle "tag" start
      pure (some handle, ← uri "tag" start)
    else
      skip 1
      pure (some "!", ← uri "tag" start)
  let c ← char
  if endsWord c then return found else unexpected "' '" c ("while scanning a tag", start)

/-! ## Directives -/

/-- What a directive says. -/
inductive Directive where
  | version (major : Nat)
  | tag (handle start : String)
  | other
  deriving DecidableEq, Repr, Inhabited

/-- A number in a directive. -/
def directiveNumber (context : String × Mark) : Scan Nat := do
  let digits ← takeWhile Char.isDigit
  if digits.isEmpty then unexpected "a digit" (← char) context else return Json.digitsValue digits

/-- A directive, after its percent sign. -/
def directive (start : Mark) : Scan Directive := do
  let context := ("while scanning a directive", start)
  skip 1
  let name ← takeWhile isNameChar
  let c ← char
  if name.isEmpty || !endsWord c then unexpected "alphabetic or numeric character" c context
  else
    let found ←
      if name == "YAML".toList then
        dropWhile (· == ' ')
        let major ← directiveNumber context
        if (← char) != '.' then unexpected "a digit or '.'" (← char) context
        else
          skip 1
          let _ ← directiveNumber context
          let c ← char
          if endsWord c then pure (Directive.version major)
          else unexpected "a digit or ' '" c context
      else if name == "TAG".toList then
        dropWhile (· == ' ')
        let handle ← tagHandle "directive" start
        if (← char) != ' ' then unexpected "' '" (← char) context
        else
          dropWhile (· == ' ')
          let text ← uri "directive" start
          let c ← char
          if endsWord c then pure (Directive.tag handle text) else unexpected "' '" c context
      else
        dropWhile (!endsLine ·)
        pure Directive.other
    restOfLine context
    return found

/-! ## Folding -/

/-- What a line break and the empty lines after it stand for where lines are folded: a break alone
is a space, else the empty lines remain. -/
def folded (first : List Char) (breaks : List Char) : List Char :=
  if first != ['\n'] then first ++ breaks else if breaks.isEmpty then [' '] else breaks

/-! ## Plain scalars -/

/-- The line breaks of empty lines inside a plain scalar; nothing where a document ends. -/
def plainBreaks : Nat → Scan (Option (List Char))
  | 0 => return some []
  | fuel + 1 => do
    let c ← char
    if c == ' ' then
      skip 1
      plainBreaks fuel
    else if isBreak c then
      let taken ← lineBreak
      if (← get).isSeparator then return none
      else
        match ← plainBreaks fuel with
        | some rest => return some (taken ++ rest)
        | none => return none
    else return some []

/-- What stands between two words of a plain scalar, and whether a line broke there; nothing where
the scalar ends. -/
def plainSpace : Scan (List Char × Bool) := do
  let blanks ← takeWhile (· == ' ')
  if isBreak (← char) then
    let first ← lineBreak
    if (← get).isSeparator then return ([], true)
    else
      match ← plainBreaks ((← get).rest.length + 1) with
      | some breaks => return (folded first breaks, true)
      | none => return ([], true)
  else return (blanks, false)

/-- Whether a plain scalar ends at a character with the one after it. Inside brackets more
characters end it. -/
def endsPlain (inFlow : Bool) (c after : Char) : Bool :=
  endsIndicator c
    || (c == ':' && (endsIndicator after || (inFlow && ",[]\x7b\x7d".toList.contains after)))
    || (inFlow && ",?[]\x7b\x7d".toList.contains c)

/-- The characters of a word of a plain scalar. -/
def plainWord (inFlow : Bool) : List Char → List Char
  | [] => []
  | c :: rest =>
    if endsPlain inFlow c (rest.headD endMark) then [] else c :: plainWord inFlow rest

/-- The words of a plain scalar with what stands between them, and whether a line broke after the
last. `spaces` is what stands before the next word. -/
def plainWords (inFlow : Bool) (indent : Nat) (spaces : List Char) (broke : Bool) :
    Nat → Scan (List Char × Bool)
  | 0 => return ([], broke)
  | fuel + 1 => do
    if (← char) == '#' then return ([], broke)
    else
      let word := plainWord inFlow (← get).rest
      if word.isEmpty then return ([], broke)
      else
        skip word.length
        let (next, broke) ← plainSpace
        let c ← get
        if next.isEmpty || c.char == '#' || (!inFlow && c.column < indent) then
          return (spaces ++ word, broke)
        else
          let (rest, broke) ← plainWords inFlow indent next broke fuel
          return (spaces ++ word ++ rest, broke)

/-- A plain scalar, and whether a line broke at its end. -/
def plain (inFlow : Bool) (indent : Nat) : Scan (String × Bool) := do
  let (cs, broke) ← plainWords inFlow indent [] false ((← get).rest.length + 1)
  return (String.ofList cs, broke)

/-! ## Quoted scalars -/

/-- The characters that a letter after a backslash stands for. -/
def simpleEscapes : List (Char × Char) := [
  ('0', '\x00'), ('a', '\x07'), ('b', '\x08'), ('t', '\t'), ('\t', '\t'), ('n', '\n'),
  ('v', '\x0b'), ('f', '\x0c'), ('r', '\r'), ('e', '\x1b'), (' ', ' '), ('"', '"'), ('\\', '\\'),
  ('/', '/'), ('N', '\x85'), ('_', '\xa0'), ('L', '\u2028'), ('P', '\u2029')]

/-- How many digits follow a letter that stands for a character by its number. -/
def escapeLengths : List (Char × Nat) := [('x', 2), ('u', 4), ('U', 8)]

/-- Digits in base sixteen. -/
def hexDigits (count : Nat) (context : String × Mark) : Nat → Scan Nat
  | 0 => return 0
  | left + 1 => do
    -- the place of the problem is the first digit, so nothing is skipped before all are read
    let offset := count - (left + 1)
    let c ← peek offset
    match Json.hexValue? c with
    | some d => return d * Nat.pow 16 left + (← hexDigits count context left)
    | none =>
      unexpected ("escape sequence of " ++ toString count ++ " hexadecimal numbers") c context

/-- Line breaks and blanks inside a quoted scalar, after a first line break. -/
def quotedBreaks (start : Mark) : Nat → Scan (List Char)
  | 0 => return []
  | fuel + 1 => do
    if (← get).isSeparator then
      fail "found unexpected document separator" (some ("while scanning a quoted scalar", start))
    else
      dropWhile fun c => c == ' ' || c == '\t'
      if isBreak (← char) then
        let taken ← lineBreak
        return taken ++ (← quotedBreaks start fuel)
      else return []

/-- What stands between two words of a quoted scalar. -/
def quotedSpace (start : Mark) : Scan (List Char) := do
  let blanks ← takeWhile fun c => c == ' ' || c == '\t'
  let c ← char
  if c == endMark then
    fail "found unexpected end of stream" (some ("while scanning a quoted scalar", start))
  else if isBreak c then
    let first ← lineBreak
    return folded first (← quotedBreaks start ((← get).rest.length + 1))
  else return blanks

/-- The second half of a surrogate pair, if its escape stands at the cursor. -/
def lowHalf : Scan (Option Nat) := do
  match (← get).rest with
  | '\\' :: 'u' :: a :: b :: c :: d :: _ =>
    return (Json.hex4? a b c d).filter Json.isLowHalf
  | _ => return none

/-- What an escape stands for, after its backslash. The two halves of a surrogate pair stand for one
character. -/
def escape (start : Mark) : Scan (List Char) := do
  let context := ("while scanning a double-quoted scalar", start)
  let c ← char
  match simpleEscapes.lookup c with
  | some char =>
    skip 1
    return [char]
  | none =>
    match escapeLengths.lookup c with
    | some count =>
      skip 1
      let n ← hexDigits count context count
      skip count
      match ← lowHalf with
      | some low =>
        if Json.isHighHalf n then
          skip 6
          return [Char.ofNat (0x10000 + (n - 0xd800) * 0x400 + (low - 0xdc00))]
        else return [Char.ofNat n]
      | none => return [Char.ofNat n]
    | none =>
      if isBreak c then
        let _ ← lineBreak
        quotedBreaks start ((← get).rest.length + 1)
      else
        fail ("found unknown escape character " ++ Text.inspect (String.singleton c)) (some context)

/-- The text of a quoted scalar up to its closing quote. -/
def quotedText (double : Bool) (start : Mark) : Nat → Scan (List Char)
  | 0 => return []
  | fuel + 1 => do
    let word ← takeWhile fun c => !(c == '\'' || c == '"' || c == '\\' || endsIndicator c)
    let c ← char
    let found ←
      if !double && c == '\'' && (← peek 1) == '\'' then
        skip 2
        pure (some ['\''])
      else if c == (if double then '"' else '\'') then pure none
      else if c == '\'' || c == '"' || (c == '\\' && !double) then
        skip 1
        pure (some [c])
      else if c == '\\' then
        skip 1
        some <$> escape start
      else some <$> quotedSpace start
    match found with
    | some cs => return word ++ cs ++ (← quotedText double start fuel)
    | none => return word

/-- A quoted scalar with its quotes. -/
def quoted (double : Bool) (start : Mark) : Scan String := do
  skip 1
  let cs ← quotedText double start (2 * (← get).rest.length + 2)
  skip 1
  return String.ofList cs

/-! ## Block scalars -/

/-- What remains of the line breaks at the end of a block scalar. -/
inductive Chomp where
  | strip
  | clip
  | keep
  deriving DecidableEq, Repr, Inhabited

/-- The sign for line breaks at the end, if it stands at the cursor. -/
def chompSign : Scan (Option Chomp) := do
  let c ← char
  if c == '+' then
    skip 1
    return some .keep
  else if c == '-' then
    skip 1
    return some .strip
  else return none

/-- The digit of an indentation, if it stands at the cursor. -/
def indentDigit (context : String × Mark) : Scan (Option Nat) := do
  let c ← char
  if c == '0' then
    fail "expected indentation indicator in the range 1-9, but found 0" (some context)
  else if c.isDigit then
    skip 1
    return some (c.toNat - 48)
  else return none

/-- The signs after the indicator of a block scalar, in either order. -/
def blockHeader (context : String × Mark) : Scan (Chomp × Option Nat) := do
  let first ← chompSign
  let digit ← indentDigit context
  let second ← if first.isNone && digit.isSome then chompSign else pure none
  let c ← char
  if endsWord c then return ((first.orElse fun _ => second).getD .clip, digit)
  else unexpected "chomping or indentation indicators" c context

/-- The line breaks before the first line of a block scalar, and the width of the widest blank line
or indentation. -/
def blockIndentation (widest : Nat) : Nat → Scan (List Char × Nat)
  | 0 => return ([], widest)
  | fuel + 1 => do
    let c ← char
    if c == ' ' then
      skip 1
      blockIndentation (max widest (← get).column) fuel
    else if isBreak c then
      let taken ← lineBreak
      let (rest, widest) ← blockIndentation widest fuel
      return (taken ++ rest, widest)
    else return ([], widest)

/-- Passes over the indentation of a line, as far as it goes. -/
def blockIndent (indent : Nat) : Nat → Scan Unit
  | 0 => return ()
  | fuel + 1 => do
    let c ← get
    if c.column < indent && c.char == ' ' then
      skip 1
      blockIndent indent fuel

/-- The line breaks of empty lines in a block scalar. -/
def blockBreaks (indent : Nat) : Nat → Scan (List Char)
  | 0 => return []
  | fuel + 1 => do
    blockIndent indent indent
    if isBreak (← char) then
      let taken ← lineBreak
      return taken ++ (← blockBreaks indent fuel)
    else return []

/-- Whether a line of a block scalar starts with a blank, which keeps it from being folded. -/
def isIndented (c : Char) : Bool := c == ' ' || c == '\t'

/-- The lines of a block scalar: their text, the last line break, and the breaks of empty lines
after it. `breaks` are those before the next line. -/
def blockLines (fold : Bool) (indent : Nat) (pending breaks : List Char) :
    Nat → Scan (List Char × List Char × List Char)
  | 0 => return ([], pending, breaks)
  | fuel + 1 => do
    let c ← get
    if c.column == indent && c.char != endMark then
      let line ← takeWhile (!endsLine ·)
      let first ← lineBreak
      let after ← blockBreaks indent ((← get).rest.length + 1)
      let next ← get
      if next.column == indent && next.char != endMark then
        let joint :=
          if fold && first == ['\n'] && !isIndented c.char && !isIndented next.char then
            if after.isEmpty then [' '] else []
          else first
        let (text, last, rest) ← blockLines fold indent first after fuel
        return (breaks ++ line ++ joint ++ text, last, rest)
      else return (breaks ++ line, first, after)
    else return ([], pending, breaks)

/-- A block scalar with its indicator, inside a collection of the given indentation. -/
def block (fold : Bool) (least : Nat) (start : Mark) : Scan String := do
  let context := ("while scanning a block scalar", start)
  skip 1
  let (chomp, digit) ← blockHeader context
  restOfLine context
  let fuel := (← get).rest.length + 1
  let (indent, breaks) ← match digit with
    | some d =>
      let indent := least + d - 1
      pure (indent, ← blockBreaks indent fuel)
    | none =>
      let (breaks, widest) ← blockIndentation 0 fuel
      pure (max least widest, breaks)
  let (text, last, rest) ← blockLines fold indent [] breaks fuel
  let tail := match chomp with
    | .strip => []
    | .clip => last
    | .keep => last ++ rest
  return String.ofList (text ++ tail)

end Scan

end SchemaForge.Yaml
