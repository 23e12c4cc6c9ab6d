import SchemaForge.Yaml.Lexeme

/-!
# Tokens of YAML

Indentation and keys are told by tokens of their own, which stand before the text that shows that
they are there: a collection starts before its first key, and whether a scalar is a key is known
only at the colon after it. So tokens wait until it is certain that nothing has to stand before
them.

* `Token`: the tokens and what they hold.
* `Lexer.peek`, `Lexer.next`: the next token, after reading on as far as is needed.
-/

namespace SchemaForge.Yaml

/-- What a token is. -/
inductive TokenKind where
  | streamEnd
  | directive (d : Scan.Directive)
  | documentStart
  | documentEnd
  | blockSequenceStart
  | blockMappingStart
  | blockEnd
  | flowSequenceStart
  | flowSequenceEnd
  | flowMappingStart
  | flowMappingEnd
  | entry
  | flowEntry
  | key
  | value
  | reference (name : String)
  | anchor (name : String)
  | tag (handle : Option String) (text : String)
  | scalar (text : String) (plain : Bool)
  deriving DecidableEq, Repr, Inhabited

/-- A token with the places where it begins and ends. -/
structure Token where
  kind : TokenKind
  first : Mark
  last : Mark
  deriving Repr, Inhabited

/-- The name of a token in the text of a problem. -/
def TokenKind.name : TokenKind → String
  | .streamEnd => "<stream end>"
  | .directive _ => "<directive>"
  | .documentStart => "<document start>"
  | .documentEnd => "<document end>"
  | .blockSequenceStart => "<block sequence start>"
  | .blockMappingStart => "<block mapping start>"
  | .blockEnd => "<block end>"
  | .flowSequenceStart => "["
  | .flowSequenceEnd => "]"
  | .flowMappingStart => "\x7b"
  | .flowMappingEnd => "\x7d"
  | .entry => "-"
  | .flowEntry => ","
  | .key => "?"
  | .value => ":"
  | .reference _ => "<alias>"
  | .anchor _ => "<anchor>"
  | .tag .. => "<tag>"
  | .scalar .. => "<scalar>"

/-- A place where a key may begin, with the number of the token there. A required key stands where a
block mapping goes on, and must be one. -/
structure PossibleKey where
  number : Nat
  required : Bool
  mark : Mark
  deriving Repr, Inhabited

/-- A text on its way to tokens. Depths count the brackets that are open. -/
structure Lexer where
  cursor : Cursor
  /-- Whether the last token has been read. -/
  finished : Bool := false
  depth : Nat := 0
  /-- The tokens that have been read but not taken, in order. -/
  waiting : List Token := []
  /-- How many tokens have been taken. -/
  taken : Nat := 0
  /-- The column of the current block collection, below zero outside of all. -/
  indent : Int := -1
  /-- The columns of the collections around it, innermost first. -/
  indents : List Int := []
  /-- Whether a key may begin at the cursor. -/
  keyAllowed : Bool := true
  /-- The places where keys may begin, by depth. -/
  keys : List (Nat × PossibleKey) := []
  deriving Repr, Inhabited

/-- Reads tokens, or finds a problem. -/
abbrev Lex (α : Type) : Type := StateT Lexer (Except Problem) α

namespace Lexer

/-! ## Parts of the state -/

/-- The place of the cursor. -/
def here : Lex Mark := do return (← get).cursor.mark

/-- Whether brackets are open. -/
def inFlow : Lex Bool := do return (← get).depth != 0

/-- Scans at the cursor. -/
def scan {α : Type} (s : Scan α) : Lex α := do
  let l ← get
  let (a, cursor) ← s.run l.cursor
  set { l with cursor }
  return a

/-- Adds a token. -/
def push (kind : TokenKind) (first last : Mark) : Lex Unit :=
  modify fun l => { l with waiting := l.waiting ++ [{ kind, first, last }] }

/-- Adds a token of no width at the cursor. -/
def pushEmpty (kind : TokenKind) : Lex Unit := do
  let m ← here
  push kind m m

/-- Adds a token of some characters at the cursor. -/
def pushChars (kind : TokenKind) (width : Nat) : Lex Unit := do
  let first ← here
  scan (Scan.skip width)
  push kind first (← here)

/-- Adds a token before the token of some number. -/
def insert (number : Nat) (kind : TokenKind) (m : Mark) : Lex Unit :=
  modify fun l =>
    let before := number - l.taken
    { l with waiting :=
        l.waiting.take before ++ { kind, first := m, last := m } :: l.waiting.drop before }

/-- Says whether a key may begin at the cursor. -/
def allowKey (allowed : Bool) : Lex Unit := modify fun l => { l with keyAllowed := allowed }

/-- A problem at the cursor. -/
def fail {α : Type} (problem : String) (context : Option (String × Mark)) : Lex α :=
  scan (Scan.fail problem context)

/-! ## Possible keys -/

/-- Gives up possible keys; a required one must not be given up. -/
def dropKeys (gone : Nat → PossibleKey → Bool) : Lex Unit := do
  let l ← get
  match l.keys.find? fun (depth, k) => gone depth k && k.required with
  | some (_, k) => fail "could not find expected ':'" (some ("while scanning a simple key", k.mark))
  | none => set { l with keys := l.keys.filter fun (depth, k) => !gone depth k }

/-- Gives up the keys that began on another line or too far back. -/
def dropStaleKeys : Lex Unit := do
  let m ← here
  dropKeys fun _ k => k.mark.line != m.line || 1024 < m.index - k.mark.index

/-- Gives up the key at the current depth. -/
def dropKey : Lex Unit := do
  let l ← get
  dropKeys fun depth _ => depth == l.depth

/-- Remembers that a key may begin at the cursor, if it is allowed. -/
def saveKey : Lex Unit := do
  if (← get).keyAllowed then
    dropKey
    let l ← get
    let key : PossibleKey :=
      { number := l.taken + l.waiting.length
        required := l.depth == 0 && l.indent == l.cursor.column
        mark := l.cursor.mark }
    set { l with keys := l.keys ++ [(l.depth, key)] }

/-! ## Indentation -/

/-- Ends the collections to the right of a column, one after another. Outside of all there is
nothing to end. -/
def unindent (column : Int) : Nat → Lex Unit
  | 0 => return ()
  | fuel + 1 => do
    let l ← get
    if l.depth == 0 && column < l.indent then
      pushEmpty .blockEnd
      modify fun l => { l with indent := l.indents.headD (-1), indents := l.indents.tail }
      unindent column fuel

/-- Ends the collections to the right of a column. -/
def unindentTo (column : Int) : Lex Unit := do unindent column ((← get).indents.length + 1)

/-- Starts a collection at a column, if the column is to the right of the current one. -/
def indentTo (column : Nat) : Lex Bool := do
  let l ← get
  if l.indent < column then
    set { l with indent := column, indents := l.indent :: l.indents }
    return true
  else return false

/-! ## Tokens -/

/-- Passes over blanks, comments and line breaks. After a line break outside of brackets a key may
begin. -/
def skipBlank : Nat → Lex Unit
  | 0 => return ()
  | fuel + 1 => do
    scan (Scan.dropWhile (· == ' '))
    scan Scan.comment
    let taken ← scan Scan.lineBreak
    if !taken.isEmpty then
      if !(← inFlow) then allowKey true
      skipBlank fuel

/-- A token that ends all collections: a directive, a document's start or its end. -/
def outermost (token : Lex Unit) : Lex Unit := do
  unindentTo (-1)
  dropKey
  allowKey false
  token

/-- The end of the text. -/
def streamEnd : Lex Unit := do
  outermost (return ())
  modify fun l => { l with keys := [], finished := true }
  pushEmpty .streamEnd

/-- An opening bracket, which may begin a key. -/
def flowStart (kind : TokenKind) : Lex Unit := do
  saveKey
  modify fun l => { l with depth := l.depth + 1 }
  allowKey true
  pushChars kind 1

/-- A closing bracket. -/
def flowEnd (kind : TokenKind) : Lex Unit := do
  dropKey
  modify fun l => { l with depth := l.depth - 1 }
  allowKey false
  pushChars kind 1

/-- A comma between brackets. -/
def flowEntry : Lex Unit := do
  allowKey true
  dropKey
  pushChars .flowEntry 1

/-- Starts a block collection at the cursor, if one starts there. -/
def startBlock (kind : TokenKind) : Lex Unit := do
  if ← indentTo (← get).cursor.column then pushEmpty kind

/-- The hyphen of an item. -/
def entry : Lex Unit := do
  if !(← inFlow) then
    if !(← get).keyAllowed then fail "sequence entries are not allowed here" none
    startBlock .blockSequenceStart
  allowKey true
  dropKey
  pushChars .entry 1

/-- The question mark of a key. -/
def key : Lex Unit := do
  if !(← inFlow) then
    if !(← get).keyAllowed then fail "mapping keys are not allowed here" none
    startBlock .blockMappingStart
  allowKey !(← inFlow)
  dropKey
  pushChars .key 1

/-- The colon of a value. What began at the possible key of this depth is a key then. -/
def value : Lex Unit := do
  let l ← get
  match l.keys.lookup l.depth with
  | some k =>
    set { l with keys := l.keys.filter fun (depth, _) => depth != l.depth }
    insert k.number .key k.mark
    if !(← inFlow) then
      if ← indentTo k.mark.column then insert k.number .blockMappingStart k.mark
    allowKey false
  | none =>
    if !(← inFlow) then
      if !(← get).keyAllowed then fail "mapping values are not allowed here" none
      startBlock .blockMappingStart
    allowKey !(← inFlow)
    dropKey
  pushChars .value 1

/-- A token that may be a key, and after which none may begin. -/
def keyLike (token : Mark → Scan TokenKind) : Lex Unit := do
  saveKey
  allowKey false
  let first ← here
  let kind ← scan (token first)
  push kind first (← here)

/-- A plain scalar. After it a key may begin if a line broke at its end. -/
def plain : Lex Unit := do
  let l ← get
  let indent := (l.indent + 1).toNat
  saveKey
  let first ← here
  let (text, broke) ← scan (Scan.plain (l.depth != 0) indent)
  allowKey broke
  push (.scalar text true) first (← here)

/-- A block scalar, after which a key may begin. -/
def block (fold : Bool) : Lex Unit := do
  allowKey true
  dropKey
  let first ← here
  let text ← scan (Scan.block fold (max 1 ((← get).indent + 1).toNat) first)
  push (.scalar text false) first (← here)

/-- Whether a plain scalar may begin with a character and the one after it. -/
def beginsPlain (inFlow : Bool) (c after : Char) : Bool :=
  !(endsIndicator c || "-?:,[]\x7b\x7d#&*!|>'\"%@`".toList.contains c)
    || (!endsIndicator after && (c == '-' || (!inFlow && (c == '?' || c == ':'))))

/-- Reads the next token, and what has to stand before it. -/
def read : Lex Unit := do
  let l ← get
  if l.cursor.mark.index == 0 && l.cursor.char == '\ufeff' then scan (Scan.skip 1)
  skipBlank (l.cursor.rest.length + 1)
  dropStaleKeys
  let l ← get
  let c := l.cursor
  let flow := l.depth != 0
  unindentTo c.column
  let char := c.char
  let after := c.peek 1
  if char == endMark then streamEnd
  else if char == '%' && c.column == 0 then
    outermost do
      let first ← here
      let d ← scan (Scan.directive first)
      push (.directive d) first (← here)
  else if c.column == 0 && c.startsWith "---" && c.isSeparator then
    outermost (pushChars .documentStart 3)
  else if c.column == 0 && c.startsWith "..." && c.isSeparator then
    outermost (pushChars .documentEnd 3)
  else if char == '[' then flowStart .flowSequenceStart
  else if char == '\x7b' then flowStart .flowMappingStart
  else if char == ']' then flowEnd .flowSequenceEnd
  else if char == '\x7d' then flowEnd .flowMappingEnd
  else if char == ',' then flowEntry
  else if char == '-' && endsIndicator after then entry
  else if char == '?' && (flow || endsIndicator after) then key
  else if char == ':' && (flow || endsIndicator after) then value
  else if char == '*' then
    keyLike fun first => do return .reference (← Scan.anchor ("while scanning an alias", first))
  else if char == '&' then
    keyLike fun first => do return .anchor (← Scan.anchor ("while scanning an anchor", first))
  else if char == '!' then
    keyLike fun first => do
      let (handle, text) ← Scan.tag first
      return .tag handle text
  else if char == '|' && !flow then block false
  else if char == '>' && !flow then block true
  else if char == '\'' then keyLike fun first => do return .scalar (← Scan.quoted false first) false
  else if char == '"' then keyLike fun first => do return .scalar (← Scan.quoted true first) false
  else if beginsPlain flow char after then plain
  else
    throw {
      context := some "while scanning for the next token"
      problem := "found character " ++ Text.inspect (String.singleton char)
        ++ " that cannot start any token"
      mark := c.mark }

/-- Whether the first waiting token may be a key, before which others would have to stand. -/
def isUndecided : Lex Bool := do
  let l ← get
  if l.finished then return false
  else if l.waiting.isEmpty then return true
  else
    dropStaleKeys
    let l ← get
    return l.keys.any fun (_, k) => k.number == l.taken

/-- Reads on until the first waiting token is certain. -/
def settle : Nat → Lex Unit
  | 0 => return ()
  | fuel + 1 => do
    if ← isUndecided then
      read
      settle fuel

/-- The next token, which stays. -/
def peek : Lex Token := do
  if ← isUndecided then settle ((← get).cursor.rest.length + 2)
  match (← get).waiting with
  | t :: _ => return t
  | [] => return { kind := .streamEnd, first := ← here, last := ← here }

/-- Takes the next token. -/
def next : Lex Token := do
  let t ← peek
  modify fun l => { l with waiting := l.waiting.tail, taken := l.taken + 1 }
  return t

end Lexer

end SchemaForge.Yaml
