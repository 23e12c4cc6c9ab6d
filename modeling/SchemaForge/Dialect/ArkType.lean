import SchemaForge.Dialect.Render

/-!
# ArkType

Definitions come in three forms: texts of a small type language, literals with braces or brackets,
and expressions. A definition of one form enters another in its own way: a text is quoted inside a
literal, and all but expressions are wrapped where an expression is needed.

* `ArkType.Definition`: a definition in one of the forms.
* `ArkType.render`: the definition of a schema.
-/

namespace SchemaForge.Dialect.ArkType

open Code (Call Wording)

/-- A definition in one of its forms. -/
inductive Definition where
  | text (wording : Wording)
  | literal (code : Code)
  | expression (code : Code)
  deriving Repr, Inhabited

namespace Definition

/-- The definition as an expression. -/
def asExpression : Definition → Code
  | .text w => "type(" ++ ([.quoted w] : Code) ++ ")"
  | .literal code => "type(" ++ code ++ ")"
  | .expression code => code

/-- The definition as a value inside a literal. -/
def asValue : Definition → Code
  | .text w => [.quoted w]
  | .literal code => code
  | .expression code => code

/-- The text of a definition that is one. -/
def wording? : Definition → Option Wording
  | .text w => some w
  | _ => none

/-- A text of words of the type language. -/
abbrev ofWords (words : String) : Definition := .text [.own words]

/-- The definition that also accepts null. -/
def orNull : Definition → Definition
  | .text w => .text (w ++ [.own " | null"])
  | d => .expression (d.asExpression ++ ".or(\"null\")")

end Definition

open Definition

/-! ## Schemas without parts -/

/-- The schemas without parts. -/
def primitive : Primitive → String
  | .boolean => "boolean"
  | .bigint => "bigint"
  | .null => "null"
  | .undefined => "undefined"
  | .unknown => "unknown"
  | .never => "never"
  | .date => "Date"

/-- The texts of a format. -/
def format : Option String → String
  | some "email" => "string.email"
  | some "url" => "string.url"
  | some "uuid" => "string.uuid"
  | some "datetime" => "string.date.iso"
  | some "date" => "/^\\d\x7b4\x7d-\\d\x7b2\x7d-\\d\x7b2\x7d$/"
  | some "time" => "/^\\d\x7b2\x7d:\\d\x7b2\x7d:\\d\x7b2\x7d(\\.\\d+)?$/"
  | some "ipv4" => "string.ip.v4"
  | some "ipv6" => "string.ip.v6"
  | _ => "string"

/-- A pattern between slashes, if it is given. -/
def patternWording (pattern : Value) : Except Fault (List Wording) :=
  if pattern.isGiven then
    match pattern with
    | .atom (.str s) => .ok [[.pattern s]]
    | .atom (.moment _) | .atom (.bytes _) => .error .wrongType
    | _ => .error .lacksPart
  else .ok []

/-- A bound of the type language, if it is given. -/
def boundWording (opening : String) (write : Value → String) (v : Value) : List Wording :=
  if v.isNull then [] else [[.own (opening ++ write v)]]

/-- Texts with their constraints. -/
def string (fmt : Option String) (least most pattern : Value) : Except Fault Definition := do
  let parts := [.own (format fmt)] :: boundWording "string >= " Value.display least
    ++ boundWording "string <= " Value.display most
  return .text (Wording.join " & " (parts ++ (← patternWording pattern)))

/-- Numbers with their constraints. -/
def number (integer : Bool) (least most : Value) : Definition :=
  .text (Wording.join " & " ([.own (if integer then "number.integer" else "number")]
    :: boundWording "number >= " Value.number least
      ++ boundWording "number <= " Value.number most))

/-- One of a list of values. -/
def enum (values : List Value) : Definition :=
  if values.isEmpty then ofWords "never"
  else .expression (Call.apply { opening := "type.enumerated(" } (values.map Code.value))

/-- One value. A text with a quote or a backslash cannot be written in the type language. -/
def literal : Value → Definition
  | .atom (.str s) =>
    if s.toList.contains '\'' || s.toList.contains '\\' then
      .expression (Call.apply { opening := "type.unit(" } [Code.value (.str s)])
    else .text [.own "'", .taken s, .own "'"]
  | v => ofWords (Code.literal v)

/-! ## Parts put together -/

/-- A text in parentheses if it has a character in it. -/
def group (c : Char) (w : Wording) : Wording :=
  if w.has c then .own "(" :: w ++ [.own ")"] else w

/-- A list of a definition; a text with a blank in it is put in parentheses. -/
def array : Definition → Definition
  | .text w => .text (group ' ' w ++ [.own "[]"])
  | d => .expression (d.asExpression ++ ".array()")

/-- How definitions are put together. -/
inductive Combination where
  | or
  | and
  deriving DecidableEq, Repr, Inhabited

namespace Combination

/-- What stands between texts of the type language. -/
def operator : Combination → String
  | .or => " | "
  | .and => " & "

/-- The method that adds a further expression. -/
def method : Combination → Call
  | .or => { opening := ".or(" }
  | .and => { opening := ".and(" }

/-- The combination of nothing. -/
def empty : Combination → String
  | .or => "never"
  | .and => "unknown"

/-- A text as an operand: alternatives are put in parentheses where all must hold. -/
def operand (c : Combination) (w : Wording) : Wording :=
  match c with
  | .or => w
  | .and => group '|' w

/-- Definitions put together: texts by an operator, all else by method calls. -/
def apply (c : Combination) : List Definition → Definition
  | [] => ofWords c.empty
  | [d] => d
  | d :: rest =>
    match (d :: rest).mapM wording? with
    | some wordings => .text (Wording.join c.operator (wordings.map c.operand))
    | none =>
      .expression (d.asExpression
        ++ rest.flatMap fun next => c.method.apply [next.asExpression])

end Combination

/-- A reference. A constant that stands later in the module cannot be named: the reference becomes
unknown, with a warning. -/
def ref (ctx : Context) (name : String) : Render Definition :=
  match ctx.customScalar? name with
  | some code => pure (.expression code)
  | none =>
    if ctx.isForward name then do
      Logged.note (.forward name ctx.current)
      return .text [.missing name]
    else pure (.expression [.reference name (Name.schemaVar name)])

/-- The key of a property: always quoted, with a question mark when it is not required. A key that
is no text is displayed before the question mark. -/
def propertyKey (required : Bool) : Atom → Except Fault Code
  | .str s => .ok [.quoted (.key s :: if required then [] else [.own "?"])]
  | key =>
    if required then
      match key with
      | .moment _ | .bytes _ => .error .wrongType
      | _ => .error .lacksPart
    else .ok [.quoted [.own (key.display ++ "?")]]

/-- The definition of a property, with its absence. -/
def property (p : Property Schema) (d : Definition) : Definition :=
  if p.required then d
  else match p.absence with
    | .optional => d
    | .nullish => d.orNull

/-- The lines of one property: its comment if it has one, then key and value. -/
def propertyLines (inner : String) (key : Atom) (p : Property Schema) (d : Definition) :
    Except Fault (List Code) := do
  let doc ← Code.comment p.description inner
  let key ← propertyKey p.required key
  return Code.commentedLine doc (inner ++ key ++ ": " ++ (property p d).asValue ++ ",")

/-- Keys that match a text of the type language; keys of another form are any text. -/
def recordKey (key : Definition) : Code :=
  [.quoted (.own "[" :: (key.wording?.getD [.own "string"]) ++ [.own "]"])]

/-! ## Schemas -/

mutual

/-- The definition of a schema. -/
def render (ctx : Context) (depth : Nat) : Schema → Render Definition
  | .primitive kind _ => pure (ofWords (primitive kind))
  | .string fmt least most pattern _ => Logged.lift (string fmt least most pattern)
  | .number integer least most _ => pure (number integer least most)
  | .object properties extra _ => do
    let lines ← renderProperties ctx (depth + 1) properties
    let more ← renderExtra ctx (depth + 1) extra
    return .literal (Code.braces (lines ++ more) depth)
  | .array items _ => do
    return array (← render ctx depth items)
  | .tuple items _ => do
    let items ← renderAll ctx depth items
    return .literal (Call.apply { opening := "[", closing := "]" } (items.map asValue))
  | .record key value _ => do
    let key ← render ctx depth key
    let value ← render ctx (depth + 1) value
    return .literal (Call.apply { opening := "\x7b ", closing := " \x7d", between := ": " }
      [recordKey key, value.asValue])
  | .enum values _ => pure (enum values)
  | .literal value _ => pure (literal value)
  | .union members _ => do
    return Combination.or.apply (← renderAll ctx depth members)
  | .intersection members _ => do
    return Combination.and.apply (← renderAll ctx depth members)
  | .ref name _ => ref ctx name
  | .raw code _ => pure (.expression code)
  | .foreign node => do
    Logged.note (.unsupported node.label ctx.current ctx.library)
    return ofWords "unknown"

/-- The definitions of a list of schemas. -/
def renderAll (ctx : Context) (depth : Nat) : List Schema → Render (List Definition)
  | [] => pure []
  | s :: rest => do
    let d ← render ctx depth s
    return d :: (← renderAll ctx depth rest)

/-- The lines of the properties of an object. -/
def renderProperties (ctx : Context) (depth : Nat) :
    List (Atom × Property Schema) → Render (List Code)
  | [] => pure []
  | (key, p) :: rest => do
    let d ← render ctx depth p.schema
    let lines ← Logged.lift (propertyLines (Code.indentation depth) key p d)
    return lines ++ (← renderProperties ctx depth rest)

/-- The line for further keys of an object. -/
def renderExtra (ctx : Context) (depth : Nat) : Extra Schema → Render (List Code)
  | .unset | .allowed => pure []
  | .rejected => pure [(Code.indentation depth ++ "\"+\": \"reject\"," : String)]
  | .typed s => do
    let d ← render ctx depth s
    return [(Code.indentation depth ++ "\"[string]\": " : String) ++ d.asValue ++ ","]

end

end SchemaForge.Dialect.ArkType
