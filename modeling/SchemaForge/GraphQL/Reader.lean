import SchemaForge.GraphQL.Document
import SchemaForge.GraphQL.Token

/-!
# Reading GraphQL

A reader takes tokens from the front of a list. Each rule of the grammar is a reader of its own.

* `Document.read?`: the definitions of a text; there is at least one.
* `Literal.read?`: the value that a text writes.
-/

namespace SchemaForge.GraphQL

/-- Takes tokens from the front of a list, or fails. -/
abbrev Reading (α : Type) : Type := StateT (List Token) Option α

namespace Reading

/-! ## Tokens -/

/-- The next token, which stays. -/
def peek : Reading (Option Token) := do return (← get).head?

/-- Takes the next token. -/
def next : Reading Token := do
  match ← get with
  | t :: rest => set rest; return t
  | [] => failure

/-- Takes the next token if it is this one. -/
def skip (t : Token) : Reading Bool := do
  if (← peek) == some t then
    let _ ← next
    return true
  else return false

/-- Takes the next token, which must be this one. -/
def expect (t : Token) : Reading Unit := do
  if ← skip t then return () else failure

/-- Whether the next token is this one. -/
def isNext (t : Token) : Reading Bool := do return (← peek) == some t

/-- A name. -/
def name : Reading String := do
  match ← next with
  | .name s => return s
  | _ => failure

/-- Items until a closing token. Each item takes at least one token, so the number of tokens bounds
the number of items. -/
def itemsUntil {α : Type} (close : Token) (item : Reading α) : Nat → Reading (List α)
  | 0 => failure
  | fuel + 1 => do
    if ← skip close then return []
    else
      let first ← item
      return first :: (← itemsUntil close item fuel)

/-- Items between two tokens, maybe none. -/
def between {α : Type} (openMark close : Char) (item : Reading α) : Reading (List α) := do
  expect (.mark openMark)
  itemsUntil (.mark close) item ((← get).length + 1)

/-- At least one item between two tokens. -/
def many {α : Type} (openMark close : Char) (item : Reading α) : Reading (List α) := do
  let items ← between openMark close item
  if items.isEmpty then failure else return items

/-- At least one item between two tokens, or nothing at all. -/
def optionalMany {α : Type} (openMark close : Char) (item : Reading α) : Reading (List α) := do
  if ← isNext (.mark openMark) then many openMark close item else return []

/-- Items with a separator between them, after the first. -/
def moreSeparated {α : Type} (separator : Char) (item : Reading α) : Nat → Reading (List α)
  | 0 => failure
  | fuel + 1 => do
    if ← skip (.mark separator) then
      let first ← item
      return first :: (← moreSeparated separator item fuel)
    else return []

/-- At least one item, with a separator between items and maybe before the first. -/
def separated {α : Type} (separator : Char) (item : Reading α) : Reading (List α) := do
  let _ ← skip (.mark separator)
  let first ← item
  return first :: (← moreSeparated separator item ((← get).length + 1))

/-! ## Values -/

/-- The value that a name stands for. -/
def namedLiteral (s : String) : Literal :=
  if s == "true" then .boolean true
  else if s == "false" then .boolean false
  else if s == "null" then .null
  else .enum s

/-- A value. In a constant no variable may stand. -/
def literal (constant : Bool) : Nat → Reading Literal
  | 0 => failure
  | depth + 1 => do
    if ← isNext (.mark '[') then return .list (← between '[' ']' (literal constant depth))
    else if ← isNext (.mark '\x7b') then
      return .object (← between '\x7b' '\x7d' do
        let key ← name
        expect (.mark ':')
        return (key, ← literal constant depth))
    else
      match ← next with
      | .int s => return .int s
      | .float s => return .float s
      | .text s => return .text s
      | .name s => return namedLiteral s
      | .mark c =>
        if c == '$' && !constant then return .variable (← name) else failure
      | .spread => failure

/-- A value, at most as deep as there are tokens. -/
def value (constant : Bool) : Reading Literal := do literal constant ((← get).length + 1)

/-- A name, a colon and a value. -/
def argument (constant : Bool) : Reading (String × Literal) := do
  let key ← name
  expect (.mark ':')
  return (key, ← value constant)

/-- The arguments of a field or a directive. -/
def arguments (constant : Bool) : Reading (List (String × Literal)) :=
  optionalMany '(' ')' (argument constant)

/-- Directives, as many as there are. -/
def directivesUpTo (constant : Bool) : Nat → Reading (List Directive)
  | 0 => failure
  | fuel + 1 => do
    if ← skip (.mark '@') then
      let name ← name
      let arguments ← arguments constant
      return { name, arguments } :: (← directivesUpTo constant fuel)
    else return []

/-- Directives, as many as there are. -/
def directives (constant : Bool) : Reading (List Directive) := do
  directivesUpTo constant ((← get).length + 1)

/-- A default value after an equals sign, if there is one. -/
def default : Reading (Option Literal) := do
  if ← skip (.mark '=') then return some (← value true) else return none

/-! ## Types -/

/-- A type under wrappers. -/
def typeRefWithin : Nat → Reading TypeRef
  | 0 => failure
  | depth + 1 => do
    let inner ←
      if ← skip (.mark '[') then
        let item ← typeRefWithin depth
        expect (.mark ']')
        pure (TypeRef.list item)
      else TypeRef.named <$> name
    if ← skip (.mark '!') then return .nonNull inner else return inner

/-- A type under wrappers, at most as deep as there are tokens. -/
def typeRef : Reading TypeRef := do typeRefWithin ((← get).length + 1)

/-- A description, if there is one. -/
def description : Reading (Option String) := do
  match ← peek with
  | some (.text s) =>
    let _ ← next
    return some s
  | _ => return none

/-! ## Operations and fragments -/

/-- The name of a fragment, which is not `on`. -/
def fragmentName : Reading String := do
  let s ← name
  if s == "on" then failure else return s

/-- One selection. -/
def selection : Nat → Reading Selection
  | 0 => failure
  | depth + 1 => do
    if ← skip .spread then
      let conditional ← skip (.name "on")
      let named := match ← peek with
        | some (.name _) => true
        | _ => false
      if !conditional && named then
        let fragment ← fragmentName
        return .spread fragment (← directives false)
      else
        let condition ← if conditional then some <$> name else pure none
        let ds ← directives false
        return .inline condition ds (← between '\x7b' '\x7d' (selection depth))
    else
      let first ← name
      let second ← if ← skip (.mark ':') then some <$> name else pure none
      let arguments ← arguments false
      let ds ← directives false
      let selections ←
        if ← isNext (.mark '\x7b') then between '\x7b' '\x7d' (selection depth) else pure []
      match second with
      | some name => return .field (some first) name arguments ds selections
      | none => return .field none first arguments ds selections

/-- Selections in braces, maybe none. -/
def selections : Reading (List Selection) := do
  between '\x7b' '\x7d' (selection ((← get).length + 1))

/-- A kind of operation. -/
def operationKind : Reading Name.OperationKind := do
  let s ← name
  match [Name.OperationKind.query, .mutation, .subscription].find? (·.text == s) with
  | some kind => return kind
  | none => failure

/-- A variable of an operation; nothing depends on its description. -/
def variableDefinition : Reading VariableDefinition := do
  let _ ← description
  expect (.mark '$')
  let name ← name
  expect (.mark ':')
  let type ← typeRef
  let default ← default
  return { name, type, default, directives := ← directives true }

/-- An operation; without a keyword it is a query. -/
def operation : Reading Operation := do
  if ← isNext (.mark '\x7b') then
    return { kind := .query, name := none, inputs := [], directives := []
             selections := ← selections }
  else
    let kind ← operationKind
    let named := match ← peek with
      | some (.name _) => true
      | _ => false
    let name ← if named then some <$> name else pure none
    let inputs ← optionalMany '(' ')' variableDefinition
    let directives ← directives false
    return { kind, name, inputs, directives, selections := ← selections }

/-- A fragment. -/
def fragment : Reading Fragment := do
  expect (.name "fragment")
  let fragmentName ← fragmentName
  expect (.name "on")
  let condition ← name
  let directives ← directives false
  return { name := fragmentName, condition, directives, selections := ← selections }

/-! ## Type system -/

/-- An argument or a field of an input object. -/
def inputDefinition : Reading InputDefinition := do
  let description ← description
  let name ← name
  expect (.mark ':')
  let type ← typeRef
  let default ← default
  return { description, name, type, default, directives := ← directives true }

/-- A field of an object or an interface. -/
def fieldDefinition : Reading FieldDefinition := do
  let description ← description
  let name ← name
  let arguments ← optionalMany '(' ')' inputDefinition
  expect (.mark ':')
  let type ← typeRef
  return { description, name, arguments, type, directives := ← directives true }

/-- A value of an enum; it is not the name of a boolean or null. -/
def valueDefinition : Reading ValueDefinition := do
  let description ← description
  let name ← name
  match namedLiteral name with
  | .enum _ => return { description, name, directives := ← directives true }
  | _ => failure

/-- The interfaces that a type implements. -/
def interfaces : Reading (List String) := do
  if ← skip (.name "implements") then separated '&' name else return []

/-- What follows the keyword of a type. -/
def typeDefinition (description : Option String) (kind : TypeKind) : Reading TypeDefinition := do
  let typeName ← name
  match kind with
  | .scalar =>
    return { description, name := typeName, directives := ← directives true, body := .scalar }
  | .object =>
    let interfaces ← interfaces
    let directives ← directives true
    let fields ← optionalMany '\x7b' '\x7d' fieldDefinition
    return { description, name := typeName, directives, body := .object interfaces fields }
  | .interface =>
    let interfaces ← interfaces
    let directives ← directives true
    let fields ← optionalMany '\x7b' '\x7d' fieldDefinition
    return { description, name := typeName, directives, body := .interface interfaces fields }
  | .union =>
    let directives ← directives true
    let members ← if ← skip (.mark '=') then separated '|' name else pure []
    return { description, name := typeName, directives, body := .union members }
  | .enum =>
    let directives ← directives true
    let values ← optionalMany '\x7b' '\x7d' valueDefinition
    return { description, name := typeName, directives, body := .enum values }
  | .inputObject =>
    let directives ← directives true
    let fields ← optionalMany '\x7b' '\x7d' inputDefinition
    return { description, name := typeName, directives, body := .inputObject fields }

/-- The kind of a type by its keyword. -/
def kindOf? (keyword : String) : Option TypeKind :=
  [("scalar", TypeKind.scalar), ("type", .object), ("interface", .interface), ("union", .union),
    ("enum", .enum), ("input", .inputObject)].lookup keyword

/-- A root type. -/
def root : Reading (Name.OperationKind × String) := do
  let kind ← operationKind
  expect (.mark ':')
  return (kind, ← name)

/-- The places where a directive may stand. -/
def locations : List String := [
  "QUERY", "MUTATION", "SUBSCRIPTION", "FIELD", "FRAGMENT_DEFINITION", "FRAGMENT_SPREAD",
  "INLINE_FRAGMENT", "VARIABLE_DEFINITION", "FRAGMENT_VARIABLE_DEFINITION", "SCHEMA", "SCALAR",
  "OBJECT", "FIELD_DEFINITION", "ARGUMENT_DEFINITION", "INTERFACE", "UNION", "ENUM", "ENUM_VALUE",
  "INPUT_OBJECT", "INPUT_FIELD_DEFINITION", "DIRECTIVE_DEFINITION"]

/-- A place where a directive may stand. -/
def location : Reading String := do
  let s ← name
  if locations.contains s then return s else failure

/-- What follows the keyword of a directive definition. -/
def directiveDefinition : Reading DirectiveDefinition := do
  expect (.mark '@')
  let directiveName ← name
  let arguments ← optionalMany '(' ')' inputDefinition
  let directives ← directives true
  let repeatable ← skip (.name "repeatable")
  expect (.name "on")
  let locations ← separated '|' location
  return { name := directiveName, arguments, directives, repeatable, locations }

/-- Whether a body says nothing. -/
def saysNothing : TypeBody → Bool
  | .scalar => true
  | .object interfaces fields | .interface interfaces fields =>
    interfaces.isEmpty && fields.isEmpty
  | .union members => members.isEmpty
  | .enum values => values.isEmpty
  | .inputObject fields => fields.isEmpty

/-- What follows the keyword of an extension. It must add something. -/
def extension : Reading Definition := do
  let keyword ← name
  if keyword == "schema" then
    let directives ← directives true
    let roots ← optionalMany '\x7b' '\x7d' root
    if directives.isEmpty && roots.isEmpty then failure
    else return .extendSchema directives roots
  else if keyword == "directive" then
    expect (.mark '@')
    let name ← name
    let directives ← directives true
    if directives.isEmpty then failure else return .extendDirective name directives
  else
    match kindOf? keyword with
    | some kind =>
      let t ← typeDefinition none kind
      if t.directives.isEmpty && saysNothing t.body then failure else return .extendType t
    | none => failure

/-- What follows the keyword of a definition of the type system. -/
def typeSystemDefinition (description : Option String) : Reading Definition := do
  let keyword ← name
  if keyword == "schema" then
    let directives ← directives true
    return .schema directives (← many '\x7b' '\x7d' root)
  else if keyword == "directive" then return .directive (← directiveDefinition)
  else
    match kindOf? keyword with
    | some kind => return .type (← typeDefinition description kind)
    | none => failure

/-- A definition. All but extensions and queries without a keyword may have a description; nothing
depends on that of an operation or a fragment. -/
def definition : Reading Definition := do
  let description ← description
  match ← peek with
  | some (.name "fragment") => return .fragment (← fragment)
  | some (.name s) =>
    if s == "schema" || s == "directive" || (kindOf? s).isSome then typeSystemDefinition description
    else if s == "extend" && description.isNone then
      let _ ← next
      extension
    else return .operation (← operation)
  | _ => if description.isSome then failure else return .operation (← operation)

/-- Definitions until the tokens end. -/
def definitions : Nat → Reading Document
  | 0 => failure
  | fuel + 1 => do
    let first ← definition
    if (← get).isEmpty then return [first] else return first :: (← definitions fuel)

end Reading

/-- The definitions of a text; there is at least one. -/
def Document.read? (text : String) : Option Document := do
  let tokens ← Token.ofText? text
  let (document, rest) ← (Reading.definitions (tokens.length + 1)).run tokens
  if rest.isEmpty then some document else none

/-- The value that a text writes. -/
def Literal.read? (text : String) : Option Literal := do
  let tokens ← Token.ofText? text
  let (literal, rest) ← (Reading.value false).run tokens
  if rest.isEmpty then some literal else none

end SchemaForge.GraphQL
