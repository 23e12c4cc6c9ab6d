import SchemaForge.Files.Path
import SchemaForge.GraphQL.Document
import SchemaForge.GraphQL.TypeSystem
import SchemaForge.Log
import SchemaForge.Logged

/-!
# The material of a source

What a source is made from: a type system with the documents of its operations, or the document of a
service description. Getting it may fail, and tells of its progress.

What may be fetched is a table: an address either answers, with a status and a text, or it does not.

* `Web.send`: the text that answers a request, if the request succeeds.
* `Failure`: why there is no material, `Failure.message` in words.
* `Event`: what is told on the way.
-/

namespace SchemaForge

/-- What a source is made from. -/
inductive Material where
  | operations (system : GraphQL.TypeSystem) (documents : List GraphQL.Document)
  /-- The document of a service description, with the globs for its paths. -/
  | service (document : Value) (included excluded : List String)
  deriving Repr, Inhabited

namespace Material

/-! ## Requests and answers -/

/-- What a request asks for. -/
inductive Method where
  | get
  | post
  deriving DecidableEq, Repr, Inhabited

/-- The name of a method. -/
def Method.name : Method → String
  | .get => "GET"
  | .post => "POST"

/-- A request with the headers that it is given. -/
structure Request where
  method : Method
  url : String
  headers : List (String × String)
  deriving DecidableEq, Repr, Inhabited

/-- An answer. -/
structure Response where
  status : Int := 200
  body : String
  deriving DecidableEq, Repr, Inhabited

/-- The answers by their addresses. -/
abbrev Web := List (String × Response)

/-- The text that answers a request, or why there is none: only a status from 200 to 299 is a
success. -/
def Web.send (w : Web) (r : Request) : Except String String :=
  match w.lookup r.url with
  | none => .error "no answer"
  | some response =>
    if 200 ≤ response.status && response.status < 300 then .ok response.body
    else .error ("status " ++ toString response.status)

/-- Headers with one more set: in the place of the one with its spelling, or at the end. -/
def setHeader (headers : List (String × String)) (header : String × String) :
    List (String × String) :=
  match headers with
  | [] => [header]
  | h :: rest => if h.1 == header.1 then header :: rest else h :: setHeader rest header

/-! ## Failures and events -/

/-- Why there is no material. -/
inductive Failure where
  | unreadable (path : Files.Path)
  | schemaMissing (path : Files.Path)
  | brokenJson (path : Files.Path)
  | brokenDefinitions (path : Files.Path)
  | brokenDocument (path : Files.Path)
  | queryFailed (url reason : String)
  | answerNotJson (url : String)
  | answerWithErrors (url : String) (messages : List String)
  | noIntrospection
  | brokenIntrospection
  | fetchFailed (url reason : String)
  | brokenDescription (origin problem : String)
  | descriptionNotMapping (origin : String)
  | fault (f : Fault)
  deriving Repr, Inhabited

/-- Whether the material could not be had at all; otherwise it was had and is of no use. -/
def Failure.isUnavailable : Failure → Bool
  | .unreadable _ | .schemaMissing _ | .queryFailed _ _ | .fetchFailed _ _ => true
  | _ => false

/-- Why there is no material; a fault has no text. -/
def Failure.message : Failure → String
  | .unreadable path => "Cannot read " ++ path.text ++ ": no such file"
  | .schemaMissing path => "Schema path does not exist: " ++ path.text
  | .brokenJson path => "Invalid introspection JSON in " ++ path.text ++ ": no JSON"
  | .brokenDefinitions path => "Invalid GraphQL schema " ++ path.text ++ ": syntax error"
  | .brokenDocument path => "Invalid GraphQL document " ++ path.text ++ ": syntax error"
  | .queryFailed url reason => "Introspection request to " ++ url ++ " failed: " ++ reason
  | .answerNotJson url => "Introspection response from " ++ url ++ " is not JSON"
  | .answerWithErrors url messages =>
    "Introspection of " ++ url ++ " returned errors: " ++ "; ".intercalate messages
  | .noIntrospection => "Introspection result has no __schema"
  | .brokenIntrospection => "Invalid introspection result: not a type system"
  | .fetchFailed url reason => "Fetching " ++ url ++ " failed: " ++ reason
  | .brokenDescription origin problem => "Invalid OpenAPI document " ++ origin ++ ": " ++ problem
  | .descriptionNotMapping origin => "OpenAPI document " ++ origin ++ " must be a mapping"
  | .fault _ => ""

/-- What is told on the way to material. -/
inductive Event where
  | sent (r : Request)
  | readingDefinitions (count : Nat) (path : Files.Path)
  | readDocuments (count : Nat)
  deriving Repr, Inhabited

/-- The line of an event. -/
def Event.line : Event → Log.Line
  | .sent r =>
    { level := .info, speaker := .material
      message := (match r.method with
        | .post => "Introspecting "
        | .get => "Fetching OpenAPI spec ") ++ r.url }
  | .readingDefinitions count path =>
    { level := .debug, speaker := .material
      message := "Loading GraphQL SDL from " ++ toString count ++ " file(s) under " ++ path.text }
  | .readDocuments count =>
    { level := .debug, speaker := .material
      message := "Loaded " ++ toString count ++ " GraphQL document(s)" }

/-- A step on the way to material. -/
abbrev Load := Logged Failure Event

/-- A step that ends with a failure. -/
def fail {α : Type} (f : Failure) : Load α := .stop f

end Material

end SchemaForge
