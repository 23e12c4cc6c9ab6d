import SchemaForge.Dialect.Module
import SchemaForge.GraphQL.Session
import SchemaForge.Material.Source
import SchemaForge.OpenApi.Document
import SchemaForge.Query.Arguments
import SchemaForge.Query.Parameters
import SchemaForge.Revision

/-!
# From sources to modules

All sources get their material first. Then each one is compiled, revised, rendered and written, in
the order of the configuration. A source that fails is recorded and does not concern the others; a
fault ends the whole run.

* `Generation.compile`: the entries of a source, with warnings for what is fetched on demand.
* `Generation.moduleOf`: the module of a source.
* `Generation.generate`: the outcomes of all sources, with the files that are there afterwards.
-/

namespace SchemaForge.Generation

/-- Why a source has no module. -/
inductive Failure where
  | material (f : Material.Failure)
  | scalar (e : Scalar.Error)
  | refused (r : OpenApi.Refusal)
  | repeatedName (name : String)
  | unwritable (source : String)
  | fault (f : Fault)
  deriving Repr, Inhabited

namespace Failure

/-- The fault behind a failure, if there is one. -/
def fault? : Failure → Option Fault
  | .material (.fault f) | .refused (.fault f) | .fault f => some f
  | _ => none

/-- The reason why a file cannot be written. -/
def blockedReason : String := "something is in the way"

/-- Why a source has no module; a fault has no text. -/
def message : Failure → String
  | .material f => f.message
  | .scalar e => e.message
  | .refused r => r.message
  | .repeatedName name => Entry.repeatedMessage name
  | .unwritable source => "Cannot write schema.ts for " ++ source ++ ": " ++ blockedReason
  | .fault _ => ""

/-- What the log says of a source that fails. -/
def line (source : String) (f : Failure) : Log.Line :=
  { level := .error, speaker := .generation
    message := "Source " ++ source ++ match f with
      | .material f => " failed to load: " ++ f.message
      | .unwritable _ => " could not be written: " ++ blockedReason
      | f => " failed: " ++ f.message }

end Failure

/-! ## Fetching on demand -/

/-- The fields of the query type; there are none without one, and it must be of a kind that has
fields. -/
def queryFields (s : GraphQL.TypeSystem) : Except Fault (List GraphQL.Field) :=
  match s.root? .query with
  | none => .ok []
  | some root =>
    match root.fields? with
    | some fields => .ok fields
    | none => .error .lacksPart

/-- What is said of a query field that is fetched on demand. -/
def fieldWarning? (s : GraphQL.TypeSystem) (fields : List GraphQL.Field) (name : String) :
    Option String :=
  match fields.find? (·.name == name) with
  | none => some ("On-demand query field \"" ++ name ++ "\" does not exist on the query type")
  | some field =>
    (Query.Arguments.capabilities s field.arguments).syncWarning? field.type.name

/-- What is said of an operation that is fetched on demand. -/
def operationWarning? (d : OpenApi.Description) (id : String) : Except Fault (Option String) :=
  match d.findOperation? id with
  | none => .ok (some ("On-demand operation \"" ++ id ++ "\" was not found"))
  | some op =>
    match op.queryParameters d.setting.document with
    | .error (.fault f) => .error f
    | .error (.unresolved e) =>
      .ok (some ("On-demand operation \"" ++ id ++ "\" skipped: " ++ e.message))
    | .ok parameters => do
      let names ← (parameters.map fun p => Value.atom p.name).mapM Query.Parameters.textName
      return (Query.Parameters.capabilities names).syncWarning? id

/-! ## One source -/

/-- A result with further warnings. -/
def withWarnings (r : Result) (more : List String) : Result :=
  { r with warnings := r.warnings ++ more }

/-- The entries of a type system and its operations. -/
def compileOperations (s : Config.Settings) (system : GraphQL.TypeSystem)
    (documents : List GraphQL.Document) : Except Failure Result := do
  let session ← (GraphQL.Session.start system documents s.scalars (some s.library.name)).mapError
    .scalar
  let session ← session.run.mapError .fault
  let fields ← (queryFields system).mapError .fault
  return withWarnings session.result (s.onDemand.filterMap (fieldWarning? system fields))

/-- The entries of a service description. -/
def compileService (s : Config.Settings) (included excluded : List String) (document : Value) :
    Except Failure Result := do
  let description ← (OpenApi.Description.ofDocument document
    { scalars := s.scalars, library := some s.library.name, included, excluded }).mapError fun
      | .scalar e => .scalar e
      | r => .refused r
  let result ← description.compile.2.mapError .fault
  let warnings ← (s.onDemand.mapM (operationWarning? description)).mapError .fault
  return withWarnings result (warnings.filterMap id)

/-- The entries of a source, with warnings for what is fetched on demand. -/
def compile (s : Config.Settings) : Material → Except Failure Result
  | .operations system documents => compileOperations s system documents
  | .service document included excluded => compileService s included excluded document

/-- A module that is ready to be written. -/
structure Output where
  content : String
  count : Nat
  warnings : List String
  deriving Repr, Inhabited

/-- The module of a source. -/
def moduleOf (plan : Plan) (s : Config.Settings) (m : Material) : Except Failure Output := do
  let result := plan.reviseEntries (← compile s m)
  match Entry.firstRepeated? [] result.entries with
  | some name => .error (.repeatedName name)
  | none =>
    let options : Dialect.Options := { standardSchema := s.standardSchema }
    let made ← (Dialect.emit s.library options result.entries).mapError .fault
    return {
      content := plan.reviseContent made.content
      count := result.entries.length
      warnings := result.warnings ++ made.warnings.map (·.message) }

/-! ## All sources -/

/-- The file for the module of a source. -/
def outputFile (c : Config) (source : String) : Files.Path :=
  (c.outputDirectory.child source).child "schema.ts"

/-- A module that was written. -/
structure Written where
  file : Files.Path
  output : Output
  deriving Repr, Inhabited

/-- What became of a source. -/
structure Outcome where
  source : String
  result : Except Failure Written

/-- What the log says of a module that was written. -/
def writtenLines (source : String) (w : Written) : List Log.Line :=
  let about := "[" ++ source ++ "] "
  w.output.warnings.map (fun warning =>
      { level := .warning, speaker := .generation, message := about ++ warning })
    ++ [{ level := .info, speaker := .generation
          message := about ++ "wrote " ++ toString w.output.count ++ " schema(s) to "
            ++ w.file.text }]

/-- A run on its way: the files that are there, and the outcomes so far. -/
structure Run where
  tree : Files.Tree
  outcomes : List Outcome := []

/-- A step of a run. -/
abbrev Step := Logged Fault Log.Line

/-- Records a source that failed. -/
def Run.fail (r : Run) (source : String) (f : Failure) : Step Run :=
  match f.fault? with
  | some fault => .stop fault
  | none => do
    Logged.note (f.line source)
    return { r with outcomes := r.outcomes ++ [{ source, result := .error f }] }

/-- Makes the module of a source and writes it. -/
def Run.source (plan : Plan) (c : Config) (r : Run) (s : Config.Settings)
    (m : Except Material.Failure Material) : Step Run :=
  let name := s.name
  match m.mapError .material >>= moduleOf plan s with
  | .error f => r.fail name f
  | .ok output =>
    let file := outputFile c name
    match r.tree.write? file output.content with
    | none => r.fail name (.unwritable name)
    | some tree =>
      let written : Written := { file, output }
      { log := writtenLines name written
        outcome := .ok
          { tree, outcomes := r.outcomes ++ [{ source := name, result := .ok written }] } }

/-- Makes the modules of all sources of a configuration. -/
def generate (plan : Plan) (c : Config) (t : Files.Tree) (w : Material.Web) : Step Run :=
  let loads := c.sources.map fun s => (s, Material.load t w c s)
  let told := loads.flatMap fun (_, load) => load.log.map Material.Event.line
  let run : Step Run := loads.foldlM (fun (r : Run) (s, load) =>
    r.source plan c s.settings load.outcome) { tree := t }
  { log := told ++ run.log, outcome := run.outcome }

end SchemaForge.Generation
