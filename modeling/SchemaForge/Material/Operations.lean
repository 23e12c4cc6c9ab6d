import SchemaForge.Files.Tree
import SchemaForge.GraphQL.Definitions
import SchemaForge.GraphQL.Introspection
import SchemaForge.Json.Reader
import SchemaForge.Material.Basic
import SchemaForge.Value.Text

/-!
# Type systems and documents

A type system comes from a file of definitions, from all such files of a directory joined in order,
from an introspection result in a file, or from an address that answers an introspection query.

* `typeSystemIn`, `typeSystemAt`: the type system in a file or directory, and at an address.
* `documentsIn`: the documents in the files that patterns match.
-/

namespace SchemaForge.Material

/-- The text of a file of the tree. -/
def textOf (t : Files.Tree) (path : Files.Path) : Load String :=
  match t.read? path with
  | some text => pure text
  | none => fail (.unreadable path)

/-- The type system in an introspection result. -/
def ofIntrospection (v : Value) : Load GraphQL.TypeSystem :=
  match GraphQL.TypeSystem.ofIntrospection v with
  | .ok system => pure system
  | .error .noSchema => fail .noIntrospection
  | .error .invalid => fail .brokenIntrospection
  | .error (.fault f) => fail (.fault f)

/-! ## Definitions -/

/-- The suffixes of files with definitions. -/
def definitionSuffixes : List String := [".graphql", ".graphqls", ".gql"]

/-- The files with definitions at a path: itself, or those of a directory and of all directories
below it, in order. -/
def definitionFiles (t : Files.Tree) (path : Files.Path) : Load (List Files.Path) :=
  if t.isFile path then pure [path]
  else if t.isDirectory path then
    pure ((t.everything path).filter fun p => definitionSuffixes.contains p.suffix)
  else fail (.schemaMissing path)

/-- The type system in a file or directory. -/
def typeSystemIn (t : Files.Tree) (path : Files.Path) : Load GraphQL.TypeSystem := do
  if path.suffix == ".json" then
    match Json.read? (← textOf t path) with
    | some v => ofIntrospection v
    | none => fail (.brokenJson path)
  else
    let files ← definitionFiles t path
    Logged.note (.readingDefinitions files.length path)
    match GraphQL.TypeSystem.ofText ("\n".intercalate (← files.mapM (textOf t))) with
    | .ok system => return system
    | .error .unreadable | .error .badMark => fail (.brokenDefinitions path)
    | .error .invalid => fail (.fault .wrongType)

/-! ## Introspection -/

/-- The message of one error of an answer, the error itself where it has none. -/
def errorMessage : Value → Except Fault Value
  | .map m => .ok ((Mapping.get? m "message").getD (.str (Value.map m).display))
  | _ => .error .lacksPart

/-- A message, which must be a text. -/
def messageText : Value → Except Fault String
  | .atom (.str s) => .ok s
  | _ => .error .wrongType

/-- The errors that are listed. -/
def listedErrors : Value → Except Fault (List Value)
  | .list items => .ok items
  | .map entries => .ok (entries.map fun entry => .atom entry.1)
  | .atom (.str s) => .ok (s.toList.map fun c => .str (String.singleton c))
  | .atom _ => .error .wrongType

/-- The messages of the errors of an answer. -/
def errorMessages (errors : Value) : Except Fault (List String) := do
  (← (← listedErrors errors).mapM errorMessage).mapM messageText

/-- The type system in the answer to an introspection query. Errors in it count more than data. -/
def ofAnswer (url : String) (body : String) : Load GraphQL.TypeSystem :=
  match Json.read? body with
  | none => fail (.answerNotJson url)
  | some (.map m) =>
    let errors := Mapping.getD m "errors"
    if errors.isGiven then
      match errorMessages errors with
      | .ok messages => fail (.answerWithErrors url messages)
      | .error f => fail (.fault f)
    else ofIntrospection (.map m)
  | some _ => fail (.fault .lacksPart)

/-- The request for an introspection result: it sends JSON, whatever other headers it is given. -/
def introspectionRequest (url : String) (headers : List (String × String)) : Request :=
  { method := .post, url
    headers := headers.foldl setHeader [("Content-Type", "application/json")] }

/-- The type system at an address. -/
def typeSystemAt (w : Web) (url : String) (headers : List (String × String)) :
    Load GraphQL.TypeSystem := do
  let request := introspectionRequest url headers
  Logged.note (.sent request)
  match w.send request with
  | .ok body => ofAnswer url body
  | .error reason => fail (.queryFailed url reason)

/-! ## Documents -/

/-- The files that a pattern matches. A pattern may be absolute. -/
def matched (t : Files.Tree) (base : Files.Path) (text : String) :
    Except Fault (List Files.Path) := do
  let start : Files.Path := { root := (Files.Path.ofText text).root }
  return t.find (base.join start) (← Files.Pattern.ofText text)

/-- The document in a file. -/
def documentIn (t : Files.Tree) (path : Files.Path) : Load GraphQL.Document := do
  match GraphQL.Document.read? (← textOf t path) with
  | some d => return d
  | none => fail (.brokenDocument path)

/-- The documents in the files that patterns match, each once and in the order of the paths. -/
def documentsIn (t : Files.Tree) (base : Files.Path) (patterns : List String) :
    Load (List GraphQL.Document) := do
  let found ← Logged.lift ((patterns.mapM (matched t base)).mapError .fault)
  let documents ← (Files.Tree.inOrder found.flatten).mapM (documentIn t)
  Logged.note (.readDocuments documents.length)
  return documents

end SchemaForge.Material
