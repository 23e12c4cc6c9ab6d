import SchemaForge.Dialect.Render
import SchemaForge.Text.Basic
import SchemaForge.Text.Case

/-!
# Scalar expressions

A caller may give the code of a scalar. The code is never run; its form alone is checked, so that
a type name or the code of another library is found before it reaches a module.

* `Scalar.suggestion`: the expression of a library for a word such as `string` or `int`.
* `Scalar.isBalanced`: whether brackets and quotes close in their order.
* `Scalar.check`: the code without white space around it, or the reason why it is refused.
-/

namespace SchemaForge.Scalar

/-! ## Words -/

/-- The kinds of value that a type word can mean. -/
inductive Word where
  | string
  | number
  | integer
  | boolean
  | date
  | datetime
  | bigint
  | unknown
  deriving DecidableEq, Repr, Inhabited

/-- The words for types, in lower case. -/
def typeWords : List (String × Word) := [
  ("string", .string), ("str", .string), ("id", .string), ("number", .number), ("float", .number),
  ("double", .number), ("int", .integer), ("integer", .integer), ("boolean", .boolean),
  ("bool", .boolean), ("date", .date), ("datetime", .datetime), ("date-time", .datetime),
  ("timestamp", .datetime), ("bigint", .bigint), ("any", .unknown), ("unknown", .unknown),
  ("json", .unknown), ("object", .unknown)]

/-- The expression of a library for a kind of value. -/
def expression : Library → Word → String
  | .zod, .string => "z.string()"
  | .zod, .number => "z.number()"
  | .zod, .integer => "z.number().int()"
  | .zod, .boolean => "z.boolean()"
  | .zod, .date => "z.date()"
  | .zod, .datetime => "z.iso.datetime()"
  | .zod, .bigint => "z.bigint()"
  | .zod, .unknown => "z.unknown()"
  | .valibot, .string => "v.string()"
  | .valibot, .number => "v.number()"
  | .valibot, .integer => "v.pipe(v.number(), v.integer())"
  | .valibot, .boolean => "v.boolean()"
  | .valibot, .date => "v.date()"
  | .valibot, .datetime => "v.pipe(v.string(), v.isoTimestamp())"
  | .valibot, .bigint => "v.bigint()"
  | .valibot, .unknown => "v.unknown()"
  | .arktype, .string => "type(\"string\")"
  | .arktype, .number => "type(\"number\")"
  | .arktype, .integer => "type(\"number.integer\")"
  | .arktype, .boolean => "type(\"boolean\")"
  | .arktype, .date => "type(\"Date\")"
  | .arktype, .datetime => "type(\"string.date.iso\")"
  | .arktype, .bigint => "type(\"bigint\")"
  | .arktype, .unknown => "type(\"unknown\")"
  | .effect, .string => "Schema.String"
  | .effect, .number => "Schema.Number"
  | .effect, .integer => "Schema.Int"
  | .effect, .boolean => "Schema.Boolean"
  | .effect, .date => "Schema.DateFromSelf"
  | .effect, .datetime => "Schema.DateTimeUtc"
  | .effect, .bigint => "Schema.BigIntFromSelf"
  | .effect, .unknown => "Schema.Unknown"

/-- The kind of value that a text means in any letter case, if it is a type word. -/
def word? (cs : List Char) : Option Word := typeWords.lookup (String.ofList (Text.lower cs))

/-- The expression for a hint; without a known word it is the one for texts. -/
def suggestion (lib : Library) (hint : List Char) : String :=
  expression lib ((word? (Text.strip hint)).getD .string)

/-- The expression for a hint and a library given by its name. -/
def suggestFor (library : String) (hint : String) : Except Fault String :=
  match Library.ofName? library with
  | some lib => .ok (suggestion lib hint.toList)
  | none => .error .lacksKey

/-! ## Form -/

/-- What the code of a library begins with. -/
def openings : Library → List String
  | .zod => ["z."]
  | .valibot => ["v."]
  | .arktype => ["type(", "type."]
  | .effect => ["Schema."]

/-- Whether a text begins as the code of a library does. -/
def beginsAs (cs : List Char) (lib : Library) : Bool :=
  (openings lib).any fun opening => opening.toList.isPrefixOf cs

/-- The characters that open and close a literal. -/
def isQuote (c : Char) : Bool := c == '\'' || c == '"' || c == '\x60'

/-- The text between the quotes, if the whole text stands between two of the same kind. -/
def quoted? : List Char → Option (List Char)
  | [] => none
  | c :: rest => if isQuote c && rest.getLast? == some c then some rest.dropLast else none

/-- The bracket that a closing one needs. -/
def opener? : Char → Option Char
  | ')' => some '('
  | ']' => some '['
  | '\x7d' => some '\x7b'
  | _ => none

/-- The place of a reader in code: the brackets that are open, the innermost first, and the quote
of the literal that it is in, if any. -/
structure Place where
  stack : List Char := []
  quote : Option Char := none
  /-- Whether the next character of a literal stands for itself. -/
  escaped : Bool := false
  deriving DecidableEq, Repr, Inhabited

/-- Reads one character, unless it closes a bracket that is not open. -/
def Place.step (p : Place) (c : Char) : Option Place :=
  match p.quote with
  | some q =>
    if p.escaped then some { p with escaped := false }
    else if c == '\\' then some { p with escaped := true }
    else if c == q then some { p with quote := none }
    else some p
  | none =>
    if isQuote c then some { p with quote := some c }
    else if c == '(' || c == '[' || c == '\x7b' then some { p with stack := c :: p.stack }
    else
      match opener? c with
      | none => some p
      | some o =>
        match p.stack with
        | top :: rest => if top == o then some { p with stack := rest } else none
        | [] => none

/-- Reads a text from a place. -/
def Place.run (p : Place) : List Char → Option Place
  | [] => some p
  | c :: rest =>
    match p.step c with
    | some q => q.run rest
    | none => none

/-- Whether brackets and quotes close in their order. -/
def isBalanced (cs : List Char) : Bool :=
  match Place.run {} cs with
  | some p => p.stack.isEmpty && p.quote.isNone
  | none => false

/-! ## The check -/

/-- Why the code of a scalar is refused. -/
inductive Refusal where
  | empty
  | literal (code : String) (hint : List Char)
  | typeName (code : String)
  | otherLibrary (other : Library) (code : String)
  | unbalanced (code : String)
  deriving DecidableEq, Repr, Inhabited

/-- A refusal with the scalar and the library that it concerns. -/
structure Error where
  scalar : String
  library : Library
  refusal : Refusal
  deriving DecidableEq, Repr, Inhabited

namespace Error

/-- The expression that may have been meant. -/
def suggestion? (e : Error) : Option String :=
  match e.refusal with
  | .empty | .otherLibrary _ _ => some (suggestion e.library [])
  | .literal _ hint => some (suggestion e.library hint)
  | .typeName code => some (suggestion e.library code.toList)
  | .unbalanced _ => none

/-- The text of a refusal. -/
def message (e : Error) : String :=
  let suggested := e.suggestion?.getD ""
  let about := "Custom scalar \"" ++ e.scalar ++ "\" "
  let asked := " Did you mean `" ++ suggested ++ "`?"
  let needs := ", but " ++ e.library.name ++ " needs an expression." ++ asked
  match e.refusal with
  | .empty =>
    about ++ "has an empty mapping for " ++ e.library.name ++ "." ++ asked
  | .literal code _ => about ++ "is mapped to the string literal " ++ code ++ needs
  | .typeName code => about ++ "is mapped to the type name \"" ++ code ++ "\"" ++ needs
  | .otherLibrary other code =>
    about ++ "looks like a " ++ other.name ++ " expression (" ++ code
      ++ ") but the selected validator is " ++ e.library.name
      ++ ". Did you mean something like `" ++ suggested ++ "`?"
  | .unbalanced code => about ++ "has unbalanced brackets or quotes: " ++ code

end Error

/-- Why code is refused, if it is; the code has no white space around it. -/
def refusal? (lib : Library) (code : List Char) : Option Refusal :=
  let text := String.ofList code
  if code.isEmpty then some .empty
  else
    match quoted? code with
    | some hint => some (.literal text hint)
    | none =>
      if (word? code).isSome then some (.typeName text)
      else
        match Library.all.find? fun other => other != lib && beginsAs code other with
        | some other => some (.otherLibrary other text)
        | none => if isBalanced code then none else some (.unbalanced text)

/-- The code of a scalar without white space around it, or the reason why it is refused. -/
def check (lib : Library) (scalar code : String) : Except Error String :=
  let stripped := Text.strip code.toList
  match refusal? lib stripped with
  | some refusal => .error { scalar, library := lib, refusal }
  | none => .ok (String.ofList stripped)

/-- The check for a library given by its name. The code for a name that is no library's is let
pass: the module of such a name is refused later. -/
def checkFor (library scalar : String) (code : Option String) : Except Error (Option String) :=
  match Library.ofName? library with
  | some lib => (check lib scalar (code.getD "")).map some
  | none => .ok code

/-- The scalars of a caller, each checked. -/
def checkAll (library : String) (overrides : List (String × String)) :
    Except Error (List (String × String)) :=
  overrides.mapM fun (name, code) => do
    return (name, (← checkFor library name (some code)).getD code)

end SchemaForge.Scalar
