import SchemaForge.Json.Reader

/-!
# Tokens of GraphQL

A text is a sequence of tokens with ignored characters between them: white space, line ends, commas,
byte order marks and comments.

* `Token`: names, numbers, strings and punctuation.
* `Token.ofText?`: the tokens of a text, if all of it consists of tokens.
* `Block.dedent`: the lines of a block string without their common indentation and without blank
  lines at both ends.
-/

namespace SchemaForge.GraphQL

/-- A token. A number is kept as it is written, a string as the text that it stands for. -/
inductive Token where
  | mark (c : Char)
  | spread
  | name (s : String)
  | int (s : String)
  | float (s : String)
  | text (s : String)
  deriving DecidableEq, Repr, Inhabited

/-! ## Characters -/

/-- The characters that may begin a name. -/
def isNameStart (c : Char) : Bool := c.isAlpha || c == '_'

/-- The characters that may continue a name. -/
def isNameChar (c : Char) : Bool := isNameStart c || c.isDigit

/-- The characters between tokens that have no meaning. -/
def isIgnored (c : Char) : Bool :=
  c == ' ' || c == '\t' || c == '\n' || c == '\r' || c == ',' || c == '\ufeff'

/-- The characters that are a token on their own. -/
def isMark (c : Char) : Bool :=
  c == '!' || c == '$' || c == '&' || c == '(' || c == ')' || c == ':' || c == '=' || c == '@'
    || c == '[' || c == ']' || c == '\x7b' || c == '|' || c == '\x7d'

/-- The characters that end a line. -/
def isLineEnd (c : Char) : Bool := c == '\n' || c == '\r'

/-- Whether a text is a name: a letter or an underscore, then letters, digits and underscores. -/
def isName (s : String) : Bool :=
  match s.toList with
  | [] => false
  | c :: rest => isNameStart c && rest.all isNameChar

/-! ## Block strings -/

namespace Block

/-- The characters that indent a line. -/
def isIndent (c : Char) : Bool := c == ' ' || c == '\t'

/-- The length of the indentation of a line. -/
def indent (line : List Char) : Nat := (line.takeWhile isIndent).length

/-- Whether a line holds nothing but indentation. -/
def isBlank (line : List Char) : Bool := line.all isIndent

/-- The least indentation of the lines that are not blank. -/
def commonIndent (lines : List (List Char)) : Nat :=
  ((lines.filter (!isBlank ·)).map indent).min?.getD 0

/-- The lines without the common indentation of all but the first, and without the blank lines at
the start and at the end. -/
def dedent (lines : List (List Char)) : List (List Char) :=
  match lines with
  | [] => []
  | first :: rest =>
    let lines := first :: rest.map (·.drop (commonIndent rest))
    let blank := (first :: rest).map isBlank
    let leading := (blank.takeWhile id).length
    let trailing := (blank.reverse.takeWhile id).length
    (lines.take (lines.length - trailing)).drop leading

/-- The lines of a block string after its opening quotes, and what follows its closing ones. The
current line and the lines before it are held in reverse. -/
def read (line : List Char) (lines : List (List Char)) :
    List Char → Option (List (List Char) × List Char)
  | '"' :: '"' :: '"' :: rest => some ((line.reverse :: lines).reverse, rest)
  | '\\' :: '"' :: '"' :: '"' :: rest => read ('"' :: '"' :: '"' :: line) lines rest
  | '\r' :: '\n' :: rest => read [] (line.reverse :: lines) rest
  | c :: rest =>
    if isLineEnd c then read [] (line.reverse :: lines) rest else read (c :: line) lines rest
  | [] => none

end Block

/-! ## Strings -/

/-- A character by its number, if the number is one of a character. -/
def charOf? (n : Nat) : Option Char := if n.isValidChar then some (Char.ofNat n) else none

/-- The number of up to eight hexadecimal digits in braces, after the opening one. -/
def readBraced (digits n : Nat) : List Char → Option (Nat × List Char)
  | [] => none
  | c :: rest =>
    if c == '\x7d' then if digits == 0 then none else some (n, rest)
    else
      match Json.hexValue? c with
      | some d => if digits < 8 then readBraced (digits + 1) (16 * n + d) rest else none
      | none => none

/-- The character of an escape, after `\u`: digits in braces, four digits, or two halves of four
digits each. -/
def readUnicode : List Char → Option (Char × List Char)
  | '\x7b' :: rest => do
    let (n, rest) ← readBraced 0 0 rest
    return (← charOf? n, rest)
  | a :: b :: c :: d :: rest => do
    let n ← Json.hex4? a b c d
    match charOf? n with
    | some char => return (char, rest)
    | none =>
      match rest with
      | '\\' :: 'u' :: e :: f :: g :: h :: rest =>
        let low ← Json.hex4? e f g h
        if Json.isHighHalf n && Json.isLowHalf low then
          return (Char.ofNat (0x10000 + (n - 0xd800) * 0x400 + (low - 0xdc00)), rest)
        else none
      | _ => none
  | _ => none

/-- The text of a string after its opening quote, and what follows its closing one; `acc` holds the
characters read, in reverse. Each step reads at least one character. -/
def readText (acc : List Char) : Nat → List Char → Option (String × List Char)
  | 0, _ => none
  | fuel + 1, cs =>
    match cs with
    | '"' :: rest => some (String.ofList acc.reverse, rest)
    | '\\' :: 'u' :: rest =>
      match readUnicode rest with
      | some (c, rest) => readText (c :: acc) fuel rest
      | none => none
    | '\\' :: c :: rest =>
      match Json.simpleEscape? c with
      | some c => readText (c :: acc) fuel rest
      | none => none
    | c :: rest => if isLineEnd c then none else readText (c :: acc) fuel rest
    | [] => none

/-! ## Numbers -/

/-- At least one digit. -/
def readDigits (cs : List Char) : Option (List Char × List Char) :=
  let digits := cs.takeWhile Char.isDigit
  if digits.isEmpty then none else some (digits, cs.dropWhile Char.isDigit)

/-- The whole part of a number: `0`, or digits that do not start with it. -/
def readWhole : List Char → Option (List Char × List Char)
  | '0' :: rest =>
    match rest with
    | c :: _ => if c.isDigit then none else some (['0'], rest)
    | [] => some (['0'], rest)
  | cs => readDigits cs

/-- The fraction of a number, empty if there is none. -/
def readFraction : List Char → Option (List Char × List Char)
  | '.' :: rest => do
    let (digits, rest) ← readDigits rest
    return ('.' :: digits, rest)
  | cs => some ([], cs)

/-- The exponent of a number, empty if there is none. -/
def readExponent : List Char → Option (List Char × List Char)
  | [] => some ([], [])
  | e :: rest =>
    if e == 'e' || e == 'E' then do
      let (sign, rest) := match rest with
        | s :: rest => if s == '+' || s == '-' then ([s], rest) else ([], s :: rest)
        | [] => ([], [])
      let (digits, rest) ← readDigits rest
      return (e :: sign ++ digits, rest)
    else some ([], e :: rest)

/-- Whether a number may end here: no point and no name may follow it. -/
def endsNumber : List Char → Bool
  | [] => true
  | c :: _ => c != '.' && !isNameStart c

/-- A number after its sign. -/
def readNumber (sign : List Char) (cs : List Char) : Option (Token × List Char) := do
  let (whole, rest) ← readWhole cs
  let (fraction, rest) ← readFraction rest
  let (exponent, rest) ← readExponent rest
  if endsNumber rest then
    let spelling := String.ofList (sign ++ whole ++ fraction ++ exponent)
    if fraction.isEmpty && exponent.isEmpty then some (.int spelling, rest)
    else some (.float spelling, rest)
  else none

/-! ## Tokens -/

namespace Token

/-- The token at the start of a text that does not start with an ignored character. -/
def read? : List Char → Option (Token × List Char)
  | '.' :: '.' :: '.' :: rest => some (.spread, rest)
  | '"' :: '"' :: '"' :: rest => do
    let (lines, rest) ← Block.read [] [] rest
    return (.text (String.ofList (['\n'].intercalate (Block.dedent lines))), rest)
  | '"' :: rest => do
    let (s, rest) ← readText [] (rest.length + 1) rest
    return (.text s, rest)
  | '-' :: rest => readNumber ['-'] rest
  | c :: rest =>
    if isMark c then some (.mark c, rest)
    else if isNameStart c then
      some (.name (String.ofList (c :: rest.takeWhile isNameChar)), rest.dropWhile isNameChar)
    else if c.isDigit then readNumber [] (c :: rest)
    else none
  | [] => none

/-- The tokens of a text. Each step reads at least one character. -/
def readAll : Nat → List Char → Option (List Token)
  | 0, _ => none
  | fuel + 1, cs =>
    match cs with
    | [] => some []
    | '#' :: rest => readAll fuel (rest.dropWhile (!isLineEnd ·))
    | c :: rest =>
      if isIgnored c then readAll fuel rest
      else do
        let (token, rest) ← read? cs
        return token :: (← readAll fuel rest)

/-- The tokens of a text, if all of it consists of tokens. -/
def ofText? (text : String) : Option (List Token) :=
  let cs := text.toList
  readAll (cs.length + 1) cs

end Token

end SchemaForge.GraphQL
