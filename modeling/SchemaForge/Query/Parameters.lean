import SchemaForge.Logged
import SchemaForge.Query.Capabilities
import SchemaForge.Text.Case
import SchemaForge.Value.Basic

/-!
# Capabilities of query parameters

A service says what its list queries can do by the names of their parameters. Names are compared
without regard to case.

* `Parameters.capabilities`: the capabilities of a list of parameter names.
* `Parameters.filterStyle?`: the style of the filters among them.
* `Parameters.jsonApiField?`, `Parameters.restSimple`: the parts of a filter's name.
-/

namespace SchemaForge.Query.Parameters

/-- The ends of filter names that stand for an operator. -/
def operatorEnds : List String :=
  ["_eq", "_ne", "_lt", "_lte", "_gt", "_gte", "_in", "_nin", "_like", "_contains"]

def sortNames : List String :=
  ["sort", "sortBy", "sort_by", "orderBy", "order_by", "$orderby", "order"]
def limitNames : List String := ["limit", "$top", "per_page", "perPage", "pageSize"]
def offsetNames : List String := ["offset", "$skip", "start"]
def pageNames : List String := ["page", "pageNumber", "page_number"]
def perPageNames : List String := ["per_page", "perPage", "pageSize", "limit"]
def cursorNames : List String := ["cursor", "after", "before"]

/-- A name in lower case. -/
def lowered (name : String) : String := String.ofList (Text.lower name.toList)

/-- The names that are never filters, in lower case. -/
def specialNames : List String :=
  (sortNames ++ limitNames ++ offsetNames ++ pageNames ++ cursorNames).map lowered

/-- The first candidate that is among the names, as it is spelt there. Of names that differ in case
only the last counts. -/
def find? (names candidates : List String) : Option String :=
  candidates.findSome? fun candidate =>
    names.reverse.find? fun name => lowered name == lowered candidate

/-! ## Filters -/

/-- What begins the name of a filter in brackets. -/
def bracketStart : List Char := "filter[".toList

/-- Whether a name is a filter by the rule that all other names are. -/
def isPlain (name : String) : Bool :=
  !specialNames.contains (lowered name) && !(['$'].isPrefixOf name.toList)
    && !name.toList.contains '['

/-- The filters among the parameters: those in brackets, else those with an operator, else all that
have no other use. -/
def filters (names : List String) : FilterCapabilities :=
  let bracketed := names.filter fun n =>
    bracketStart.isPrefixOf n.toList && n.toList.getLast? == some ']'
  let suffixed := names.filter fun n => endsInAny n operatorEnds
  let plain := names.filter isPlain
  if !bracketed.isEmpty then
    { hasFiltering := true, style := some "jsonapi", params := bracketed }
  else if !suffixed.isEmpty then
    { hasFiltering := true, style := some "rest-simple", params := suffixed }
  else if !plain.isEmpty then
    { hasFiltering := true, style := some "rest-simple", params := plain }
  else {}

/-- The style of the filters among the parameters. -/
def filterStyle? (names : List String) : Option String :=
  if names.any fun n => bracketStart.isPrefixOf n.toList then some "jsonapi"
  else if names.any (endsInAny · operatorEnds) then some "rest-simple"
  else if names.any isPlain then some "rest-simple"
  else none

/-! ## Sorting and pagination -/

/-- The sorting that the parameters allow. -/
def sorting (names : List String) : SortCapabilities :=
  match find? names sortNames with
  | some name => { hasSorting := true, param := some name }
  | none => {}

/-- The pagination that the parameters allow: by cursor, else by page, else by offset. -/
def pagination (names : List String) : PaginationCapabilities :=
  if (find? names cursorNames).isSome then
    { style := "cursor", limit := find? names limitNames }
  else
    match find? names pageNames with
    | some page => { style := "page", page := some page, perPage := find? names perPageNames }
    | none =>
      let limit := find? names limitNames
      let offset := find? names offsetNames
      if limit.isSome || offset.isSome then { style := "offset", limit, offset } else {}

/-- The capabilities of a list of parameter names. -/
def capabilities (names : List String) : Capabilities :=
  { filter := filters names, sort := sorting names, pagination := pagination names }

/-- The name of a parameter: the parameter itself if it is a text, else its member `name`. -/
def nameOf : Value → Except Fault Value
  | .atom (.str s) => .ok (.str s)
  | .map entries =>
    match Mapping.get? entries "name" with
    | some v => .ok v
    | none => .error .lacksKey
  | _ => .error .wrongType

/-- A name that must be a text to be looked at. -/
def textName : Value → Except Fault String
  | .atom (.str s) => .ok s
  | _ => .error .lacksPart

/-- The names of a list of parameters. -/
def namesOf (params : List Value) : Except Fault (List String) := do
  let names ← params.mapM nameOf
  names.mapM textName

/-! ## The parts of a filter's name -/

/-- The text in brackets at the start of a text, at least one character, and what follows it. -/
def bracket? : List Char → Option (List Char × List Char)
  | '[' :: rest =>
    let inner := rest.takeWhile (· != ']')
    match rest.dropWhile (· != ']') with
    | ']' :: after => if inner.isEmpty then none else some (inner, after)
    | _ => none
  | _ => none

/-- What follows the word that begins a filter in brackets. -/
def afterFilter? (name : String) : Option (List Char) :=
  let cs := name.toList
  let word := "filter".toList
  if word.isPrefixOf cs then some (cs.drop word.length) else none

/-- The field of a filter in brackets: `price` in `filter[price][gte]`. -/
def jsonApiField? (name : String) : Option String := do
  let (field, _) ← bracket? (← afterFilter? name)
  return String.ofList field

/-- The operator of a filter in brackets: `gte` in `filter[price][gte]`. -/
def jsonApiOperator? (name : String) : Option String := do
  let (_, rest) ← bracket? (← afterFilter? name)
  let (operator, _) ← bracket? rest
  return String.ofList operator

/-- The field and the operator of a filter without brackets: `price` and `gte` in `price_gte`.
Without an operator it asks for equality. -/
def restSimple (name : String) : String × String :=
  let cs := name.toList
  match operatorEnds.find? fun e => e.toList.isSuffixOf cs with
  | some e => (String.ofList (cs.take (cs.length - e.length)), String.ofList (e.toList.drop 1))
  | none => (name, "eq")

end SchemaForge.Query.Parameters
