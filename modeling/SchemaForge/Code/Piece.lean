import SchemaForge.Code.Text

/-!
# Code in pieces

Generated code is put together from pieces and becomes a text only as a whole. A text of the
document enters it in one of two kinds of pieces, a string literal or a comment; all other pieces
are words of a library, names and numbers.

* `Stretch`: a part of what stands between the quotes of a literal.
* `Piece`, `Code`: a part of code, and code.
* `Call`: what stands around and between the arguments of a call.
-/

namespace SchemaForge

namespace Code

/-! ## Literals -/

/-- A part of what stands between the quotes of a literal. -/
inductive Stretch where
  /-- Words of a library. -/
  | own (words : String)
  /-- A text of the document. -/
  | taken (text : String)
  /-- The name of a property. -/
  | key (name : String)
  /-- A pattern of the document, between slashes. -/
  | pattern (text : String)
  /-- What stands for a constant that cannot be named. -/
  | missing (name : String)
  deriving DecidableEq, Repr, Inhabited

/-- Writes a backslash before each slash. -/
def escapeSlashes (cs : List Char) : List Char :=
  cs.flatMap fun c => if c == '/' then ['\\', '/'] else [c]

/-- What is written for a constant that cannot be named. -/
def missingWord : String := "unknown"

/-- The text of a part of a literal. -/
def Stretch.text : Stretch → String
  | .own words => words
  | .taken text => text
  | .key name => name
  | .pattern text => "/" ++ String.ofList (escapeSlashes text.toList) ++ "/"
  | .missing _ => missingWord

/-- What stands between the quotes of a literal. -/
abbrev Wording := List Stretch

namespace Wording

/-- The text of a wording. -/
def text (w : Wording) : String := String.join (w.map Stretch.text)

/-- Whether a character occurs in a wording. -/
def has (w : Wording) (c : Char) : Bool := w.text.toList.contains c

/-- Wordings with words between them. -/
def join (between : String) : List Wording → Wording
  | [] => []
  | [w] => w
  | w :: rest => w ++ .own between :: join between rest

end Wording

/-! ## Pieces -/

/-- A part of code. -/
inductive Piece where
  /-- Words of a library, a name or a number. -/
  | plain (words : String)
  /-- What is written for the constant of a name. -/
  | reference (name code : String)
  /-- A string literal. -/
  | quoted (wording : Wording)
  /-- The comment of a text that is not blank. -/
  | comment (text indent : String)
  deriving DecidableEq, Repr, Inhabited

/-- The text of a part of code. -/
def Piece.text : Piece → String
  | .plain words => words
  | .reference _ code => code
  | .quoted wording => quote wording.text
  | .comment text indent => docComment text indent

end Code

/-- Generated code. -/
abbrev Code := List Code.Piece

instance : Coe String Code := ⟨fun words => [.plain words]⟩

namespace Code

/-- The text of code. -/
def text (code : Code) : String := String.join (code.map Piece.text)

/-- Words, each as code of its own. -/
def each (words : List String) : List Code := words.map fun w => [.plain w]

/-- Codes with words between them. -/
def join (between : String) : List Code → Code
  | [] => []
  | [code] => code
  | code :: rest => code ++ .plain between :: join between rest

/-! ## Calls -/

/-- How a call is written: what stands before, between and behind its arguments. -/
structure Call where
  opening : String
  closing : String := ")"
  between : String := ", "
  deriving Repr, Inhabited

/-- A call with its arguments. -/
def Call.apply (call : Call) (arguments : List Code) : Code :=
  .plain call.opening :: join call.between arguments ++ [.plain call.closing]

end Code

end SchemaForge
