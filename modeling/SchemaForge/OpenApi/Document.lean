import SchemaForge.OpenApi.Operation
import SchemaForge.OpenApi.PathGlob
import SchemaForge.Scalar.Expression

/-!
# Service descriptions

A document is accepted, its components are named, and its components and operations become entries.
What has been named stays taken: a description can be compiled again, and then everything in it is a
duplicate.

* `Description.ofDocument`: the description in a document, with the choices of a caller.
* `Description.compile`: its entries in their order, and the description after that.
* `Description.findOperation?`: the first operation of an identifier.
-/

namespace SchemaForge.OpenApi

/-- Why a document is refused. -/
inductive Refusal where
  | notMapping
  | swagger
  | noVersion
  | pathsNotMapping
  | componentsNotMapping
  | scalar (e : Scalar.Error)
  | fault (f : Fault)
  deriving Repr, Inhabited

/-- The text of a refusal; a scalar has a text of its own, and a fault has none. -/
def Refusal.message : Refusal → String
  | .notMapping => "OpenAPI document must be a mapping"
  | .swagger => "Swagger 2.0 documents are not supported; convert to OpenAPI 3"
  | .noVersion => "OpenAPI document has no 'openapi' version string"
  | .pathsNotMapping => "OpenAPI 'paths' must be a mapping"
  | .componentsNotMapping => "OpenAPI 'components' must be a mapping"
  | .scalar e => e.message
  | .fault _ => ""

/-- The choices of a caller. -/
structure Choices where
  scalars : List (String × String) := []
  /-- The library that the code of scalars is checked for. -/
  library : Option String := none
  included : List String := []
  excluded : List String := []
  deriving Repr, Inhabited

/-- An accepted document with what has been noticed and named so far. -/
structure Description where
  setting : Setting
  /-- The paths that pass the globs. -/
  paths : Mapping
  /-- What stands under the component schemas. -/
  components : Value
  notes : List Note := []
  /-- The names of entries that are taken. -/
  taken : List String := []
  deriving Repr, Inhabited

/-! ## Component names -/

/-- The first of `name2`, `name3`, … that is not taken. One of as many as there are taken names, and
one more, is free. -/
def freeName (taken : List String) (name : String) : Nat → Nat → String
  | 0, suffix => name ++ toString suffix
  | tries + 1, suffix =>
    let candidate := name ++ toString suffix
    if taken.contains candidate then freeName taken name tries (suffix + 1) else candidate

/-- Names of components: names by key, keys by name, and notes on the names that were changed. -/
structure Naming where
  names : List (String × String) := []
  owners : List (String × String) := []
  notes : List Note := []
  deriving Repr, Inhabited

/-- Sets the name of a key: in place when the key has one, at the end otherwise. -/
def setName (names : List (String × String)) (key name : String) : List (String × String) :=
  match names with
  | [] => [(key, name)]
  | entry :: rest => if entry.1 == key then (key, name) :: rest else entry :: setName rest key name

/-- Names one more component. A name that another component has gets the first free number. -/
def Naming.add (n : Naming) (key : String) : Naming :=
  let name := Name.typeOf key
  match n.owners.lookup name with
  | none => { n with names := setName n.names key name, owners := n.owners ++ [(name, key)] }
  | some owner =>
    let unique := freeName (n.owners.map (·.1)) name n.owners.length 2
    { names := setName n.names key unique
      owners := n.owners ++ [(unique, key)]
      notes := n.notes ++ [.componentRenamed owner key name unique] }

/-- A key of a component, which must be a text to be named. -/
def componentKey : Value → Except Fault String
  | .atom (.str s) => .ok s
  | _ => .error .wrongType

/-- The keys of the components: those of a mapping, the items of a list, the characters of a
text. -/
def componentKeys (v : Value) : Except Fault (List String) :=
  match v with
  | .map entries => entries.mapM fun entry => componentKey (.atom entry.1)
  | .list items => items.mapM componentKey
  | .atom (.str s) => .ok (s.toList.map String.singleton)
  | .atom _ => .error .wrongType

/-! ## Acceptance -/

/-- A member that must be a mapping if it is given. -/
def mappingAt (entries : Mapping) (key : String) (refusal : Refusal) : Except Refusal Mapping :=
  match entries.getD key with
  | .map m => .ok m
  | v => if v.isGiven then .error refusal else .ok []

/-- The paths that pass the globs of a caller. A path is looked at only if there are globs, and must
be a text then. -/
def keepPaths (c : Choices) (paths : Mapping) : Except Fault Mapping :=
  if c.included.isEmpty && c.excluded.isEmpty then .ok paths
  else
    let keeps := PathGlob.keeps (c.included.map PathGlob.ofText) (c.excluded.map PathGlob.ofText)
    paths.filterMapM fun (path, item) =>
      match path with
      | .str s => .ok (if keeps s then some (path, item) else none)
      | _ => .error .wrongType

/-- The code of the scalars, checked if a library is named. -/
def checkScalars (c : Choices) : Except Refusal (List (String × String)) :=
  match c.library with
  | none => .ok c.scalars
  | some library =>
    if library == "" then .ok c.scalars else (Scalar.checkAll library c.scalars).mapError .scalar

namespace Description

/-- The description in a document. -/
def ofDocument (document : Value) (c : Choices) : Except Refusal Description := do
  let entries : Mapping ← match document with
    | .map entries => .ok entries
    | _ => .error .notMapping
  match entries.getD "openapi" with
  | .atom (.str _) => pure ()
  | _ => .error (if entries.has "swagger" then .swagger else .noVersion)
  let paths ← mappingAt entries "paths" .pathsNotMapping
  let components ← mappingAt entries "components" .componentsNotMapping
  let kept ← (keepPaths c paths).mapError .fault
  let schemas := components.getD "schemas"
  let schemas := if schemas.isGiven then schemas else .map []
  let scalars ← checkScalars c
  let keys ← (componentKeys schemas).mapError .fault
  let naming := keys.foldl Naming.add {}
  return {
    setting := { document, scalars, componentNames := naming.names }
    paths := kept
    components := schemas
    notes := naming.notes }

/-- The operations of the paths that pass. -/
def operations (d : Description) : List Operation := Operation.ofPaths d.paths

/-- The first operation of an identifier. -/
def findOperation? (d : Description) (id : String) : Option Operation :=
  d.operations.find? fun op => Lowering.isText (op.body.getD "operationId") id

/-! ## Compilation -/

/-- The entries that are offered, those of taken names left out with a note. -/
def admitNames (taken : List String) : List Entry → List Entry × List String × List Note
  | [] => ([], taken, [])
  | entry :: rest =>
    if taken.contains entry.name then
      let (entries, taken, notes) := admitNames taken rest
      (entries, taken, .duplicateEntry entry.name entry.category :: notes)
    else
      let (entries, taken, notes) := admitNames (entry.name :: taken) rest
      (entry :: entries, taken, notes)

/-- A compilation on its way: the entries so far, and the description with what it noticed. -/
structure Progress where
  description : Description
  entries : List Entry := []
  deriving Repr, Inhabited

/-- Adds notes. -/
def Progress.note (p : Progress) (notes : List Note) : Progress :=
  { p with description := { p.description with notes := p.description.notes ++ notes } }

/-- Takes the entries that are offered and whose names are free. -/
def Progress.offer (p : Progress) (offered : List Entry) : Progress :=
  let (entries, taken, notes) := admitNames p.description.taken offered
  { description := { p.description with taken, notes := p.description.notes ++ notes }
    entries := p.entries ++ entries }

/-- The entry of a component. -/
def componentEntry (s : Setting) (key : String) (node : Value) : Lower Entry := do
  let schema ← Lowering.schema s (.component key) node
  return Entry.of ((s.componentNames.lookup key).getD "") schema (some "component")

/-- Compiles the components, in order. -/
def compileComponents (p : Progress) : Mapping → Progress × Except Fault Unit
  | [] => (p, .ok ())
  | (key, node) :: rest =>
    let lowered := componentEntry p.description.setting key.display node
    let p := p.note lowered.log
    match lowered.outcome with
    | .ok entry => compileComponents (p.offer [entry]) rest
    | .error (.fault f) => (p, .error f)
    | .error (.unresolved _) => compileComponents p rest

/-- Compiles the operations, in order. One with a reference without a value is skipped as a whole,
with a note. -/
def compileOperations (p : Progress) : List Operation → Progress × Except Fault Unit
  | [] => (p, .ok ())
  | op :: rest =>
    let lowered := op.entries p.description.setting
    let p := p.note lowered.log
    match lowered.outcome with
    | .ok entries => compileOperations (p.offer entries) rest
    | .error (.fault f) => (p, .error f)
    | .error (.unresolved e) =>
      let method := String.ofList (Text.upper op.method.toList)
      compileOperations (p.note [.skippedOperation method op.path e]) rest

/-- The notes of a description as texts. -/
def warnings (d : Description) : List String := d.notes.map Note.message

/-- Compiles a description: components first, then operations. The description that is left has the
names that are taken now and all notes, also when a fault ended the compilation. -/
def compile (d : Description) : Description × Except Fault Result :=
  match d.components with
  | .map components =>
    match compileComponents { description := d } components with
    | (p, .error f) => (p.description, .error f)
    | (p, .ok ()) =>
      match compileOperations p p.description.operations with
      | (p, .error f) => (p.description, .error f)
      | (p, .ok ()) =>
        (p.description, .ok { entries := Entry.sort p.entries, warnings := p.description.warnings })
  | _ => (d, .error .lacksPart)

end Description

end SchemaForge.OpenApi
