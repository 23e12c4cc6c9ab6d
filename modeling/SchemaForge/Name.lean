import SchemaForge.Text.Case

/-!
# Names

How the names of types, schema constants and operations are formed from the names in a document.

* `Name.pascal`, `Name.camel`: words joined, each with a capital.
* `Name.schemaVar`: the constant that holds the schema of a type.
* `Name.typeOf`: an identifier made of the letters and digits of any text.
* `Name.isIdentifier`: whether a text may stand unquoted as a key.
-/

namespace SchemaForge.Name

/-! ## Case -/

/-- Drops each hyphen or underscore that a character other than a line feed follows, and puts that
character into upper case. -/
def joinWords : List Char → List Char
  | [] => []
  | [c] => [c]
  | c :: d :: rest =>
    if (c == '-' || c == '_') && d != '\n' then Text.upperChar d ++ joinWords rest
    else c :: joinWords (d :: rest)

/-- Words joined, each with a capital: `create_user` becomes `CreateUser`. -/
def pascalChars (cs : List Char) : List Char := Text.upperFirst (joinWords cs)

/-- Words joined, each with a capital. -/
def pascal (name : String) : String := String.ofList (pascalChars name.toList)

/-- Words joined, each but the first with a capital. -/
def camel (name : String) : String := String.ofList (Text.lowerFirst (pascalChars name.toList))

/-- The constant that holds the schema of a type: `User` becomes `userSchema`. -/
def schemaVar (typeName : String) : String :=
  String.ofList (Text.lowerFirst typeName.toList) ++ "Schema"

/-- The constant that holds the adapter of a schema: `petSchema` becomes `petStandardSchema`. -/
def adapterVar (schemaVar : String) : String :=
  let cs := schemaVar.toList
  let tail := "Schema".toList
  let stem := if tail.isSuffixOf cs then cs.take (cs.length - tail.length) else cs
  String.ofList stem ++ "StandardSchema"

/-! ## Identifiers -/

/-- The characters that may begin an identifier. -/
def isIdentifierStart (c : Char) : Bool := c.isAlpha || c == '_' || c == '$'

/-- The characters that may continue an identifier. -/
def isIdentifierChar (c : Char) : Bool := isIdentifierStart c || c.isDigit

/-- The text without one line feed at its end. -/
def dropFinalNewline (cs : List Char) : List Char :=
  if cs.getLast? == some '\n' then cs.dropLast else cs

/-- Whether a text may stand unquoted as a key: letters, digits, `_` and `$`, no digit first, in
ASCII. One line feed at the end is let pass. -/
def isIdentifier (name : String) : Bool :=
  match dropFinalNewline name.toList with
  | [] => false
  | c :: rest => isIdentifierStart c && rest.all isIdentifierChar

/-! ## Types and operations of a service description -/

/-- The maximal runs of ASCII letters and digits in a text; `word` holds the current one in
reverse. -/
def wordsFrom (word : List Char) : List Char → List (List Char)
  | [] => if word.isEmpty then [] else [word.reverse]
  | c :: rest =>
    if c.isAlphanum then wordsFrom (c :: word) rest
    else if word.isEmpty then wordsFrom [] rest
    else word.reverse :: wordsFrom [] rest

/-- The words of a text joined, each with a capital. -/
def words (text : String) : List Char := (wordsFrom [] text.toList).flatMap Text.upperFirst

/-- An identifier for any text: its words joined, `Unnamed` if there are none, with an underscore
before a leading digit. -/
def typeOf (text : String) : String :=
  match words text with
  | [] => "Unnamed"
  | c :: rest => String.ofList (if c.isDigit then '_' :: c :: rest else c :: rest)

/-- The name of an operation without an identifier of its own: its method and its path. -/
def ofPath (method path : String) : String :=
  String.ofList (Text.capitalize method.toList ++ words path)

/-- The name of an operation: its identifier if it has one, else its method and path. -/
def operation (method path : String) (id : Option String) : String :=
  match id with
  | some id => if id == "" then ofPath method path else typeOf id
  | none => ofPath method path

/-! ## Operations and fragments of a query language -/

/-- The three kinds of operation. -/
inductive OperationKind where
  | query
  | mutation
  | subscription
  deriving DecidableEq, Repr, Inhabited

/-- The kind as it is written. -/
def OperationKind.text : OperationKind → String
  | .query => "query"
  | .mutation => "mutation"
  | .subscription => "subscription"

/-- The kind at the end of a name. -/
def OperationKind.suffix : OperationKind → String
  | .query => "Query"
  | .mutation => "Mutation"
  | .subscription => "Subscription"

/-- The type of the variables of an operation. -/
def variablesType (kind : OperationKind) (name : String) : String :=
  pascal name ++ kind.suffix ++ "Variables"

/-- The type of the response of an operation. -/
def responseType (kind : OperationKind) (name : String) : String := pascal name ++ kind.suffix

/-- The type of a fragment. -/
def fragmentType (name : String) : String := pascal name ++ "Fragment"

/-- The constant of the variables of an operation. -/
def variablesVar (kind : OperationKind) (name : String) : String :=
  camel name ++ kind.suffix ++ "VariablesSchema"

/-- The constant of the response of an operation. -/
def responseVar (kind : OperationKind) (name : String) : String :=
  camel name ++ kind.suffix ++ "Schema"

/-- The constant of a fragment. -/
def fragmentVar (name : String) : String := camel name ++ "FragmentSchema"

end SchemaForge.Name
