import SchemaForge.Code.Piece
import SchemaForge.Value.Text

/-!
# Literals of generated code

* `literal`: a value as a literal; `value`, `key`: a value and the key of a property as code.
* `object`: fields with their comments, one to a line; `objectLiteral`: their text.
-/

namespace SchemaForge.Code

/-- A value as a literal: booleans and texts in the generated language, numbers exactly, all else
as it is displayed. -/
def literal : Value → String
  | .atom (.bool b) => if b then "true" else "false"
  | .atom (.str s) => quote s
  | v => v.number

/-- A value as code: a text is a literal of its own. -/
def value : Value → Code
  | .atom (.str s) => [.quoted [.taken s]]
  | v => literal v

/-- The key of a property as code: as it is when it is an identifier, a literal otherwise. -/
def key (name : String) : Code :=
  if Name.isIdentifier name then name else [.quoted [.key name]]

/-- The comment of a description, if there is one. -/
def comment (description : Value) (indent : String) : Except Fault Code := do
  match ← commented? description with
  | some text => return [.comment text indent]
  | none => return []

/-- The indentation of a depth. -/
def indentation (depth : Nat) : String := String.ofList (List.replicate (2 * depth) ' ')

/-- A field of an object literal; the key is in its final form. -/
structure Field where
  key : Code
  value : Code
  description : Value
  deriving Repr, Inhabited

/-- A line after the comment that belongs to it. -/
def commentedLine (doc line : Code) : List Code := if doc.isEmpty then [line] else [doc, line]

/-- The lines of one field: its comment if it has one, then key and value. -/
def Field.lines (inner : String) (field : Field) : Except Fault (List Code) := do
  let doc ← comment field.description inner
  return commentedLine doc (inner ++ field.key ++ ": " ++ field.value ++ ",")

/-- Lines between braces, or empty braces. -/
def braces (lines : List Code) (depth : Nat) : Code :=
  if lines.isEmpty then "\x7b\x7d"
  else "\x7b\n" ++ join "\n" lines ++ ("\n" ++ indentation depth ++ "\x7d" : String)

/-- Fields as an object literal, one to a line. -/
def object (fields : List Field) (depth : Nat) : Except Fault Code := do
  let lines ← fields.mapM (Field.lines (indentation (depth + 1)))
  return braces lines.flatten depth

/-- The text of fields as an object literal. -/
def objectLiteral (fields : List Field) (depth : Nat) : Except Fault String :=
  (object fields depth).map text

end SchemaForge.Code
