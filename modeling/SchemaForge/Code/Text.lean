import SchemaForge.Logged
import SchemaForge.Name
import SchemaForge.Text.Basic
import SchemaForge.Value.Basic

/-!
# Texts of a document in code

A text of a document enters generated code inside double quotes or inside a comment. Between quotes
a backslash, a quote, a line feed, a carriage return and a tab are written with a backslash before
them, all else as it is. A description becomes a comment before the declaration that it describes.

* `Quoted.encode`, `quote`: the characters between the quotes, and the string literal of a text.
* `propertyKey`: the key of a property in an object literal.
* `docComment`: the comment of a text, empty when the text is blank.
* `commented?`: the text of a description, which must be a text when it is given at all.
* `describe`: the comment of a description.
-/

namespace SchemaForge.Code

/-! ## String literals -/

namespace Quoted

/-- One character between the quotes. -/
def encodeChar (c : Char) : List Char :=
  if c == '\\' then ['\\', '\\']
  else if c == '"' then ['\\', '"']
  else if c == '\n' then ['\\', 'n']
  else if c == '\r' then ['\\', 'r']
  else if c == '\t' then ['\\', 't']
  else [c]

/-- The characters between the quotes. -/
def encode (cs : List Char) : List Char := cs.flatMap encodeChar

end Quoted

/-- The string literal of a text. -/
def quote (text : String) : String := String.ofList ('"' :: Quoted.encode text.toList ++ ['"'])

/-- The key of a property: as it is when it is an identifier, quoted otherwise. -/
def propertyKey (name : String) : String := if Name.isIdentifier name then name else quote name

/-! ## Comments -/

/-- Keeps a text from ending the comment that it stands in. -/
def keepOpen : List Char → List Char
  | '*' :: '/' :: rest => '*' :: '\\' :: '/' :: keepOpen rest
  | c :: rest => c :: keepOpen rest
  | [] => []

/-- One line in the middle of a comment. -/
def commentLine (indent line : List Char) : List Char :=
  if (Text.strip line).isEmpty then indent ++ [' ', '*']
  else indent ++ [' ', '*', ' '] ++ Text.stripRight line

/-- The lines of a comment around those of a text. -/
def commentLines (indent : List Char) : List (List Char) → List (List Char)
  | [line] => [indent ++ "/** ".toList ++ Text.strip line ++ " */".toList]
  | lines => (indent ++ "/**".toList) :: lines.map (commentLine indent) ++ [indent ++ " */".toList]

/-- Whether a text is nothing but white space. -/
def isBlank (text : String) : Bool := (Text.strip text.toList).isEmpty

/-- The comment of a text, empty when the text is blank. A text of one line makes a comment of one
line. -/
def docComment (text : String) (indent : String) : String :=
  let stripped := Text.strip text.toList
  if stripped.isEmpty then ""
  else
    String.ofList
      ("\n".toList.intercalate (commentLines indent.toList (Text.lines (keepOpen stripped))))

/-- White space among bytes. -/
def isBlankByte (b : UInt8) : Bool := b == 0x20 || (0x09 ≤ b && b ≤ 0x0d)

/-- The text of a description that makes a comment; what is blank makes none. A description that is
given but no text is a fault. -/
def commented? (description : Value) : Except Fault (Option String) :=
  match description with
  | .atom (.str s) => .ok (if isBlank s then none else some s)
  | .atom (.bytes bytes) => if bytes.all isBlankByte then .ok none else .error .wrongType
  | v => if v.isGiven then .error .lacksPart else .ok none

/-- The comment of a description, empty when there is none. -/
def describe (description : Value) (indent : String) : Except Fault String :=
  (commented? description).map fun text => (text.map (docComment · indent)).getD ""

end SchemaForge.Code
