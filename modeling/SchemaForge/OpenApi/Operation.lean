import SchemaForge.Name
import SchemaForge.OpenApi.Lowering

/-!
# Operations of a service description

An operation gives up to three schemas: of its parameters, of the body that it is sent, and of the
response to a success.

* `Operation.parameters`: the parameters of an operation over those of its path.
* `Operation.mediaSchema?`: the schema of a body, that of JSON before all others.
* `Operation.successSchema?`: the schema of the least status that begins with `2` and has one.
* `Operation.entries`: the entries of an operation; a reference without a value ends the step.
-/

namespace SchemaForge.OpenApi

/-- An operation of a document. -/
structure Operation where
  method : String
  path : Atom
  pathItem : Mapping
  body : Mapping
  deriving Repr, Inhabited

namespace Operation

/-- The methods of a path, in the order in which their operations are taken. -/
def methods : List String := ["get", "put", "post", "delete", "options", "head", "patch", "trace"]

/-- The operations of one path. -/
def ofPath (path : Atom) : Value → List Operation
  | .map item =>
    methods.filterMap fun method =>
      match Mapping.get? item method with
      | some (.map body) => some { method, path, pathItem := item, body }
      | _ => none
  | _ => []

/-- The operations of a list of paths, in order. -/
def ofPaths (paths : Mapping) : List Operation :=
  paths.flatMap fun (path, item) => ofPath path item

/-! ## Parameters -/

/-- The parameters that a value lists: of a mapping its keys, of a text its characters. -/
def listed (v : Value) : Except Fault (List Value) :=
  if !v.isGiven then .ok []
  else
    match v with
    | .list items => .ok items
    | .map entries => .ok (entries.map fun entry => .atom entry.1)
    | .atom (.str s) => .ok (s.toList.map fun c => .str (String.singleton c))
    | .atom (.bytes b) => .ok (b.map fun n => .int n.toNat)
    | .atom _ => .error .wrongType

/-- A parameter with its name and the place where it is sent. -/
structure Parameter where
  name : Atom
  location : Atom
  entries : Mapping
  deriving Repr, Inhabited

/-- Sets a parameter: in the place of the one with its name and location, or at the end. -/
def setParameter (ps : List Parameter) (p : Parameter) : List Parameter :=
  match ps with
  | [] => [p]
  | q :: rest =>
    if q.name.sameKey p.name && q.location.sameKey p.location then
      { q with entries := p.entries } :: rest
    else q :: setParameter rest p

/-- The parameter that a node stands for, if it is one with a name. -/
def parameter? (document : Value) (node : Value) : Except Stop (Option Parameter) := do
  match ← Pointer.resolve document node with
  | .map entries =>
    match Mapping.get? entries "name" with
    | none => return none
    | some name =>
      let name ← orStop (Lowering.asKey name)
      let location ← orStop (Lowering.asKey ((Mapping.get? entries "in").getD (.str "")))
      return some { name, location, entries }
  | _ => return none

/-- Adds the parameters that a list of nodes stands for. -/
def addParameters (document : Value) (acc : List Parameter) :
    List Value → Except Stop (List Parameter)
  | [] => .ok acc
  | node :: rest => do
    match ← parameter? document node with
    | some p => addParameters document (setParameter acc p) rest
    | none => addParameters document acc rest

/-- The parameters of an operation: those of its path, each replaced by its own of the same name and
location, and the rest of its own. -/
def parameters (document : Value) (op : Operation) : Except Stop (List Parameter) := do
  let shared ← orStop (listed (op.pathItem.getD "parameters"))
  let own ← orStop (listed (op.body.getD "parameters"))
  addParameters document [] (shared ++ own)

/-- The parameters of an operation that are sent in the query. -/
def queryParameters (document : Value) (op : Operation) : Except Stop (List Parameter) := do
  return (← parameters document op).filter (·.location == .str "query")

/-- The property of a parameter. One of the path is always required; one that is not required may
be absent, and null only if its schema says so. -/
def parameterProperty (p : Parameter) (m : Modified) : Property Schema :=
  let required := Lowering.isTrue (p.entries.getD "required") || p.location == .str "path"
  let m : Modified :=
    if required then m else { schema := m.schema, optional := true, nullable := m.nullable }
  m.toProperty (p.entries.getD "description")

/-- Adds the properties of a list of parameters, those of other locations than path and query left
out. -/
def parameterProperties (s : Setting) (acc : List (Atom × Property Schema)) :
    List Parameter → Lower (List (Atom × Property Schema))
  | [] => pure acc
  | p :: rest =>
    if p.location == .str "path" || p.location == .str "query" then do
      let node := p.entries.getD "schema"
      let m ← Lowering.lower s .operation (if node.isGiven then node else .map [])
      parameterProperties s (setProperty acc p.name (parameterProperty p m)) rest
    else parameterProperties s acc rest

/-! ## Bodies and responses -/

/-- The media types of a content that have a schema, in order. -/
def withSchema : Mapping → List (Atom × Value)
  | [] => []
  | (mediaType, .map media) :: rest =>
    match Mapping.get? media "schema" with
    | some schema => (mediaType, schema) :: withSchema rest
    | none => withSchema rest
  | _ :: rest => withSchema rest

/-- The first media type whose name has `json` in it. -/
def firstJson? : List (Atom × Value) → Except Fault (Option Value)
  | [] => .ok none
  | (.str mediaType, schema) :: rest =>
    if Text.occursIn "json".toList mediaType.toList then .ok (some schema) else firstJson? rest
  | _ :: _ => .error .wrongType

/-- The schema of a content: that of `application/json`, else of the first JSON type, else of the
first type. -/
def mediaSchema? (content : Value) : Except Fault (Option Value) :=
  match content with
  | .map entries =>
    let media := withSchema entries
    match media.find? (·.1 == .str "application/json") with
    | some (_, schema) => .ok (some schema)
    | none =>
      match firstJson? media with
      | .ok none => .ok (media.head?.map (·.2))
      | found => found
  | _ => .ok none

/-- Schemas are absent when they are null. -/
def present (v : Option Value) : Option Value := v.filter (!·.isNull)

/-- The schema of the body that an operation is sent. -/
def requestSchema? (document : Value) (op : Operation) : Except Stop (Option Value) :=
  match op.body.getD "requestBody" with
  | .atom .null => .ok none
  | body => do
    match ← Pointer.resolve document body with
    | .map entries => return present (← orStop (mediaSchema? (Mapping.getD entries "content")))
    | _ => .error (.fault .lacksPart)

/-- The responses by the text of their status; of equal texts the last counts, at the first
place. -/
def byStatus (responses : Mapping) : List (String × Value) :=
  (Mapping.ofEntries (responses.map fun (code, response) => (.str code.display, response))).map
    fun (code, response) => (code.display, response)

/-- The statuses that begin with `2`, in the order of their texts. -/
def successes (responses : Mapping) : List (String × Value) :=
  ((byStatus responses).filter fun (status, _) => ['2'].isPrefixOf status.toList).mergeSort
    fun a b => a.1 ≤ b.1

/-- The schema of the first response that has one. -/
def firstSchema? (document : Value) : List (String × Value) → Except Stop (Option Value)
  | [] => .ok none
  | (_, response) :: rest => do
    match ← Pointer.resolve document response with
    | .map entries =>
      match present (← orStop (mediaSchema? (Mapping.getD entries "content"))) with
      | some schema => return some schema
      | none => firstSchema? document rest
    | _ => firstSchema? document rest

/-- The schema of the response to a success. -/
def successSchema? (document : Value) (responses : Value) : Except Stop (Option Value) :=
  if !responses.isGiven then .ok none
  else
    match responses with
    | .map entries => firstSchema? document (successes entries)
    | _ => .error (.fault .lacksPart)

/-! ## Entries -/

/-- The name of an operation: its identifier, or its method and path. -/
def name (op : Operation) : Except Fault String :=
  let id := op.body.getD "operationId"
  if id.isGiven then
    match id with
    | .atom (.str s) => .ok (Name.typeOf s)
    | _ => .error .wrongType
  else
    match op.path with
    | .str path => .ok (Name.ofPath op.method path)
    | _ => .error .wrongType

/-- The entry of a schema that an operation has. -/
def entryOf (s : Setting) (name category : String) (node : Option Value) : Lower (List Entry) :=
  match node with
  | none => pure []
  | some node => do
    return [Entry.of name (← Lowering.schema s .operation node) (some category)]

/-- The entries of an operation. -/
def entries (s : Setting) (op : Operation) : Lower (List Entry) := do
  let name ← Logged.lift (orStop op.name)
  let ps ← Logged.lift (parameters s.document op)
  let properties ← parameterProperties s [] ps
  let params := if properties.isEmpty then []
    else [Entry.of (name ++ "Params") (.object properties .unset .null) (some "params")]
  let body ← Logged.lift (requestSchema? s.document op)
  let request ← entryOf s (name ++ "Request") "input" body
  let success ← Logged.lift (successSchema? s.document (op.body.getD "responses"))
  let response ← entryOf s (name ++ "Response") "response" success
  return params ++ request ++ response

end Operation

end SchemaForge.OpenApi
