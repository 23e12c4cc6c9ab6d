import SchemaForge.Logged
import SchemaForge.OpenApi.Pointer
import SchemaForge.Schema.Entry

/-!
# Schemas of a service description

How a schema node of a document becomes a schema. Of the keywords that can stand together only one
decides the shape, in this order: a format with code of its own, `const`, `enum`, `oneOf` or
`anyOf`, `allOf`, and last `type`. That null is allowed travels beside the shape until both are put
together.

* `Lowering.lower`: the schema of a node with its nullability.
* `Lowering.schema`: the same with its nullability put in.
* `Site`: inside a component a reference without a value becomes unknown and is noted; elsewhere it
  ends the step.
-/

namespace SchemaForge.OpenApi

/-- What lowering knows of the whole document. -/
structure Setting where
  document : Value
  /-- Code for formats. -/
  scalars : List (String × String)
  /-- The type names of the components, by key. -/
  componentNames : List (String × String)
  deriving Repr, Inhabited

/-- Where a node stands: in a component of some key, or in an operation. -/
inductive Site where
  | component (key : String)
  | operation
  deriving DecidableEq, Repr, Inhabited

/-- Something to be said about a document. -/
inductive Note where
  | unresolvedInComponent (key : String) (e : ReferenceError)
  | componentRenamed (owner key name unique : String)
  | duplicateEntry (name : String) (category : Option String)
  | skippedOperation (method : String) (path : Atom) (e : ReferenceError)
  deriving Repr, Inhabited

/-- The text of a note. -/
def Note.message : Note → String
  | .unresolvedInComponent key e =>
    "Component schema \"" ++ key ++ "\": " ++ e.message ++ "; typed as unknown"
  | .componentRenamed owner key name unique =>
    "Component schemas \"" ++ owner ++ "\" and \"" ++ key ++ "\" both map to \"" ++ name ++ "\"; \""
      ++ key ++ "\" is named \"" ++ unique ++ "\""
  | .duplicateEntry name category =>
    "Duplicate schema name \"" ++ name ++ "\" (" ++ category.getD "None"
      ++ "); keeping the first definition"
  | .skippedOperation method path e =>
    "Skipped " ++ method ++ " " ++ path.display ++ ": " ++ e.message

/-- A step of lowering. -/
abbrev Lower (α : Type) : Type := Logged Stop Note α

namespace Lowering

/-! ## Keywords -/

/-- The formats that schemas know, by the formats of documents. -/
def formats : List (String × String) := [
  ("email", "email"), ("uri", "url"), ("url", "url"), ("uuid", "uuid"), ("date-time", "datetime"),
  ("date", "date"), ("time", "time"), ("ipv4", "ipv4"), ("ipv6", "ipv6")]

/-- Whether a value is the text. -/
def isText (v : Value) (s : String) : Bool :=
  match v with
  | .atom (.str t) => t == s
  | _ => false

/-- Whether a value is `true`. -/
def isTrue : Value → Bool
  | .atom (.bool true) => true
  | _ => false

/-- A value that can be looked up must be an atom. -/
def asKey : Value → Except Fault Atom
  | .atom a => .ok a
  | _ => .error .wrongType

/-- The text of a format, null and other atoms having none. -/
def formatText? : Atom → Option String
  | .str s => some s
  | _ => none

/-- The code for a format, if there is any. -/
def scalarCode? (s : Setting) (format : Atom) : Option String :=
  (formatText? format).bind fun name => s.scalars.lookup name

/-- The node without a keyword. -/
def without (entries : Mapping) (keywords : List String) : Mapping :=
  entries.filter fun entry => !keywords.any fun k => entry.1 == .str k

/-- The node with one type in place of several, not nullable. -/
def withType (entries : Mapping) (type : Value) : Mapping :=
  (entries.insert (.str "type") type).insert (.str "nullable") (.bool false)

/-! ## Values -/

/-- Whether all values are texts, or all are numbers. -/
def isUniform (values : List Value) : Bool :=
  (values.all fun v => match v with | .atom (.str _) => true | _ => false)
    || (values.all fun v => match v with | .atom (.int _) | .atom (.float _) => true | _ => false)

/-- The values listed by an `enum` keyword; of a mapping its keys count. -/
def enumValues : Value → Except Fault (List Value)
  | .list items => .ok items
  | .map entries => .ok (entries.map fun entry => .atom entry.1)
  | .atom _ => .error .wrongType

/-- The schema of an `enum` keyword, and whether it lists null. -/
def enum (v : Value) : Except Fault (Schema × Bool) := do
  let all ← enumValues v
  let nullable := all.any Value.isNull
  let values := all.filter (!·.isNull)
  if values.isEmpty then return (if nullable then .null else .never, false)
  else if isUniform values then return (.enum values .null, nullable)
  else return (.union (values.map fun v => .literal v .null) .null, nullable)

/-- The schema of a `const` keyword. -/
def const (v : Value) : Schema := if v.isNull then .null else .literal v .null

/-- One of several schemas, or the only one. -/
def oneOf : List Schema → Schema
  | [s] => s
  | members => .union members .null

/-- All of several schemas, or the only one. -/
def allOf : List Schema → Schema
  | [s] => s
  | members => .intersection members .null

/-- The list under a keyword, if it holds one. -/
def listAt? (entries : Mapping) (keyword : String) : Option (List Value) :=
  match entries.get? keyword with
  | some (.list items) => some items
  | _ => none

/-! ## Objects -/

/-- The keys listed by a `required` keyword. -/
def requiredKeys (v : Value) : Except Fault (List Atom) :=
  if !v.isGiven then .ok []
  else
    match v with
    | .list items => items.mapM asKey
    | .map entries => .ok (entries.map (·.1))
    | .atom (.str s) => .ok (s.toList.map fun c => .str (String.singleton c))
    | .atom (.bytes b) => .ok (b.map fun n => .int n.toNat)
    | .atom _ => .error .wrongType

/-- The properties under a keyword. -/
def propertyNodes (v : Value) : Except Fault Mapping :=
  match v with
  | .map entries => .ok entries
  | _ => if v.isGiven then .error .lacksPart else .ok []

/-- The description of a node. -/
def descriptionOf : Value → Value
  | .map entries => Mapping.getD entries "description"
  | _ => .null

/-- Whether a key is among those required. -/
def isRequired (required : List Atom) (key : Atom) : Bool := required.any (·.sameKey key)

/-- The property of a lowered node. One that is not required may be absent or null. -/
def property (required : Bool) (m : Modified) (description : Value) : Property Schema :=
  let m : Modified := if required then m else { schema := m.schema, nullish := true }
  m.toProperty description

/-- The properties of an object, each node lowered in turn. -/
def properties (sub : Value → Lower Modified) (required : List Atom) :
    List (Atom × Property Schema) → Mapping → Lower (List (Atom × Property Schema))
  | acc, [] => pure acc
  | acc, (key, node) :: rest => do
    let m ← sub node
    let p := property (isRequired required key) m (descriptionOf node)
    properties sub required (setProperty acc key p) rest

/-- What an object says of further keys. -/
def extra (schema : Value → Lower Schema) (additional : Value) : Lower (Extra Schema) :=
  match additional with
  | .atom .null => pure .unset
  | .atom (.bool b) => pure (if b then .allowed else .rejected)
  | .map entries =>
    if entries.isEmpty then pure .allowed
    else do
      return .typed (← schema additional)
  | _ => pure .allowed

/-- The schema of an object node. Without properties it is a dictionary unless further keys are
ruled out. -/
def object (sub : Value → Lower Modified) (schema : Value → Lower Schema) (entries : Mapping) :
    Lower Schema := do
  let propertiesNode := entries.getD "properties"
  let required ← Logged.lift (orStop (requiredKeys (entries.getD "required")))
  let additional := entries.getD "additionalProperties"
  let isClosed := match additional with
    | .atom (.bool false) => true
    | _ => false
  let isTyped := match additional with
    | .map e => !e.isEmpty
    | _ => false
  if !propertiesNode.isGiven && isTyped then
    return .dictionary (← schema additional)
  else if !propertiesNode.isGiven && !isClosed then
    return .dictionary .unknown
  else do
    let nodes ← Logged.lift (orStop (propertyNodes propertiesNode))
    let lowered ← properties sub required [] nodes
    return .object lowered (← extra schema additional) .null

/-! ## Shapes -/

/-- The schema of a node of one type. -/
def typed (sub : Value → Lower Modified) (schema : Value → Lower Schema) (entries : Mapping)
    (format : Atom) (type : Value) : Lower Schema :=
  let isObject := isText type "object"
    || (type.isNull && (entries.has "properties" || entries.has "additionalProperties"))
  if isObject then object sub schema entries
  else
    match type with
    | .atom (.str "array") =>
      match listAt? entries "prefixItems" with
      | some items => do
        return .tuple (← items.mapM schema) .null
      | none =>
        match entries.getD "items" with
        | .atom .null => pure (.array .unknown .null)
        | items => do
          return .array (← schema items) .null
    | .atom (.str "string") =>
      pure (.string ((formatText? format).bind fun name => formats.lookup name)
        (entries.getD "minLength") (entries.getD "maxLength") (entries.getD "pattern") .null)
    | .atom (.str "integer") =>
      pure (.number true (entries.getD "minimum") (entries.getD "maximum") .null)
    | .atom (.str "number") =>
      pure (.number false (entries.getD "minimum") (entries.getD "maximum") .null)
    | .atom (.str "boolean") => pure .boolean
    | .atom (.str "null") => pure .null
    | _ => pure .unknown

/-- The schema of a node without its own nullability, and whether an `enum` in it lists null. -/
def shape (s : Setting) (sub : Value → Lower Modified) (entries : Mapping) (type : Value) :
    Lower (Schema × Bool) := do
  let schema (node : Value) : Lower Schema := do
    return (← sub node).toSchema
  let format ← Logged.lift (orStop (asKey (entries.getD "format")))
  match scalarCode? s format with
  | some code => return (.raw code .null, false)
  | none =>
    match entries.get? "const" with
    | some v => return (const v, false)
    | none =>
      match entries.get? "enum" with
      | some v => Logged.lift (orStop (enum v))
      | none =>
        match (listAt? entries "oneOf").or (listAt? entries "anyOf") with
        | some nodes => return (oneOf (← nodes.mapM schema), false)
        | none =>
          match listAt? entries "allOf" with
          | some nodes =>
            let members ← nodes.mapM schema
            if entries.has "properties" then
              let rest ← schema (.map (without entries ["allOf", "description"]))
              return (allOf (members ++ [rest]), false)
            else return (allOf members, false)
          | none => return (← typed sub schema entries format type, false)

/-- The types of a node: whether null is among them, and the others. -/
def typesOf : Value → Bool × List Value
  | .list types => (types.any (isText · "null"), types.filter (!isText · "null"))
  | type => (false, [type])

/-- The schema of a node that is a mapping without a reference. -/
def mapping (s : Setting) (sub : Value → Lower Modified) (entries : Mapping) : Lower Modified := do
  let (nullAmong, types) := typesOf (entries.getD "type")
  let nullable := isTrue (entries.getD "nullable") || nullAmong
  match types with
  | first :: second :: rest =>
    let members ← (first :: second :: rest).mapM fun type => do
      return (← sub (.map (withType entries type))).toSchema
    return { schema := .union members .null, nullable }
  | _ =>
    let type := types.head?.getD (if nullAmong then .str "null" else .null)
    let (lowered, listsNull) ← shape s sub entries type
    let description := entries.getD "description"
    let described := if description.isGiven then lowered.describe description else lowered
    return { schema := described, nullable := nullable || listsNull }

/-! ## References -/

/-- The start of a reference to a component schema. -/
def componentStart : List Char := "#/components/schemas/".toList

/-- The key of the component schema that a reference names. -/
def componentKey? : Value → Option String
  | .atom (.str ref) =>
    let cs := ref.toList
    if componentStart.isPrefixOf cs then
      some (String.ofList (Pointer.unescape (cs.drop componentStart.length)))
    else none
  | _ => none

/-- What a reference stands for: a component by its name, or the node that it leads to. -/
inductive Target where
  | component (name : String)
  | node (v : Value)

/-- Finds what the reference of a node stands for. -/
def target (s : Setting) (node ref : Value) : Except Stop Target :=
  match componentKey? ref with
  | some key =>
    match s.componentNames.lookup key with
    | some name => .ok (.component name)
    | none => .error (.unresolved (.unknownComponent key))
  | none => (Pointer.resolve s.document node).map .node

/-- The schema of a node that is a reference. -/
def reference (s : Setting) (site : Site) (sub : Value → Lower Modified) (entries : Mapping)
    (ref : Value) : Lower Modified :=
  match target s (.map entries) ref with
  | .ok (.component name) =>
    pure { schema := .ref name .null, nullable := isTrue (entries.getD "nullable") }
  | .ok (.node v) => sub v
  | .error (.fault f) => Logged.stop (.fault f)
  | .error (.unresolved e) =>
    match site with
    | .operation => Logged.stop (.unresolved e)
    | .component key => do
      Logged.note (.unresolvedInComponent key e)
      return { schema := .unknown }

/-! ## Nodes -/

/-- The schema of a node, given how the nodes below it are lowered. -/
def node (s : Setting) (site : Site) (sub : Value → Lower Modified) : Value → Lower Modified
  | .atom (.bool false) => pure { schema := .never }
  | .map entries =>
    if entries.isEmpty then pure { schema := .unknown }
    else
      match Mapping.getD entries "$ref" with
      | .atom .null => mapping s sub entries
      | ref => reference s site sub entries ref
  | _ => pure { schema := .unknown }

/-- The schema of a node whose parts are nested at most so deep. -/
def lowerWithin (s : Setting) (site : Site) : Nat → Value → Lower Modified
  | 0, _ => Logged.stop (.fault .endless)
  | depth + 1, v => node s site (lowerWithin s site depth) v

/-- A depth that no node of a document exceeds unless a reference in it leads back to itself. A step
down leads to a node below, to one of several types of the same node, to the node without its
`allOf`, or to another node of the document, and none of these can be taken twice. -/
def depthBound (document : Value) : Nat := 4 * document.size + 4

/-- The schema of a node with its nullability apart. -/
def lower (s : Setting) (site : Site) (v : Value) : Lower Modified :=
  lowerWithin s site (depthBound s.document) v

/-- The schema of a node. -/
def schema (s : Setting) (site : Site) (v : Value) : Lower Schema := do
  return (← lower s site v).toSchema

end Lowering

end SchemaForge.OpenApi
