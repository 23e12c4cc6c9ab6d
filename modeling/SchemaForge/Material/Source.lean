import SchemaForge.Config.Basic
import SchemaForge.Files.Tree
import SchemaForge.Json.Reader
import SchemaForge.Material.Operations
import SchemaForge.Yaml.Content

/-!
# Getting the material of a source

A service description is a document in a file or at an address; what a source of operations is made
from comes from its own module.

* `serviceText`: the document in a text, which may be YAML or JSON.
* `serviceIn`, `serviceAt`: the document in a file and at an address.
* `Material.load`: the material of a source of a configuration.
-/

namespace SchemaForge.Material

/-! ## Service descriptions -/

/-- A document must be a mapping. -/
def mapping (origin : String) : Value → Load Value
  | .map m => pure (.map m)
  | _ => fail (.descriptionNotMapping origin)

/-- The document in a text. -/
def serviceText (origin text : String) : Load Value :=
  match Yaml.read text with
  | .ok v => mapping origin v
  | .error (.fault f) => fail (.fault f)
  | .error e => fail (.brokenDescription origin (e.message text))

/-- The document in a file. One with the suffix of JSON holds JSON only. -/
def serviceIn (t : Files.Tree) (path : Files.Path) : Load Value := do
  let text ← textOf t path
  if path.suffix == ".json" then
    match Json.read? text with
    | some v => mapping path.text v
    | none => fail (.brokenDescription path.text "no JSON")
  else serviceText path.text text

/-- The document at an address. -/
def serviceAt (w : Web) (url : String) (headers : List (String × String)) : Load Value := do
  let request : Request := { method := .get, url, headers }
  Logged.note (.sent request)
  match w.send request with
  | .ok body => serviceText url body
  | .error reason => fail (.fetchFailed url reason)

/-! ## Sources -/

/-- The type system of a location: an address comes before a file. -/
def typeSystemOf (t : Files.Tree) (w : Web) (c : Config) (s : Config.Settings)
    (l : Config.Location) : Load GraphQL.TypeSystem :=
  if Config.isGiven l.url then typeSystemAt w (l.url.getD "") s.headers
  else typeSystemIn t (c.resolve (l.file.getD ""))

/-- The material of a source. -/
def load (t : Files.Tree) (w : Web) (c : Config) (s : Config.Source) : Load Material :=
  match s.kind with
  | .graphql location documents => do
    let system ← typeSystemOf t w c s.settings location
    return .operations system (← documentsIn t c.base documents)
  | .openapi spec included excluded => do
    let document ←
      if Config.isRemote spec then serviceAt w spec s.settings.headers
      else serviceIn t (c.resolve spec)
    return .service document included excluded

end SchemaForge.Material
