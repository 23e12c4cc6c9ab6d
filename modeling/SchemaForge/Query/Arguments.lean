import SchemaForge.GraphQL.TypeSystem
import SchemaForge.Query.Parameters

/-!
# Capabilities of field arguments

A type system says what a query field can do by the names and types of its arguments. Names are
compared without regard to case.

* `Arguments.capabilities`: the capabilities of a list of arguments.
* `Arguments.filterStyleOfName?`: the style of a filter by the name of its type.
-/

namespace SchemaForge.Query.Arguments

open GraphQL

def filterNames : List String := ["where", "filter", "filters"]
def sortNames : List String := ["order_by", "orderBy", "sort", "sortBy"]
def limitNames : List String := ["limit", "first", "take"]
def offsetNames : List String := ["offset", "skip"]

/-- The fields of a filter that compare in the style of names with underscores. -/
def hasuraFields : List String :=
  ["_eq", "_neq", "_lt", "_lte", "_gt", "_gte", "_in", "_nin", "_and", "_or", "_not"]

/-- The fields of a filter that compare in the style of plain words. -/
def prismaFields : List String :=
  ["equals", "not", "in", "notIn", "lt", "lte", "gt", "gte", "contains", "startsWith", "endsWith"]

/-- The first argument of a name. -/
def find? (arguments : List Input) (name : String) : Option Input :=
  arguments.find? fun a => Parameters.lowered a.name == Parameters.lowered name

/-- The name, as it is spelt, of the first candidate that an argument has. -/
def findName? (arguments : List Input) (candidates : List String) : Option String :=
  candidates.findSome? fun name => (find? arguments name).map (·.name)

/-- The type of an argument without its wrappers, if it is an input object. -/
def inputObject? (s : TypeSystem) (a : Input) : Option NamedType :=
  (s.find? a.type.name).filter (·.kind == .inputObject)

/-! ## Filters -/

/-- The style of a filter by the name of its type. -/
def filterStyleOfName? (typeName : String) : Option String :=
  if endsLike typeName ["_bool_exp", "_where"] then some "hasura"
  else if endsLike typeName ["WhereInput", "WhereUniqueInput"] then some "prisma"
  else none

/-- The style of a filter. The name decides before the fields, one style after the other. -/
def filterStyle (t : NamedType) : String :=
  let has (names : List String) : Bool := names.any fun name => (t.field? name).isSome
  if filterStyleOfName? t.name == some "hasura" || has hasuraFields then "hasura"
  else if filterStyleOfName? t.name == some "prisma" || has prismaFields then "prisma"
  else "custom"

/-- The filter among the arguments: the first of a filter's name whose type is an input object. -/
def filters (s : TypeSystem) (arguments : List Input) : FilterCapabilities :=
  match filterNames.findSome? fun name => (find? arguments name).bind (inputObject? s) with
  | some t =>
    { hasFiltering := true, style := some (filterStyle t), inputType := some t.name }
  | none => {}

/-! ## Sorting and pagination -/

/-- The ordering among the arguments. -/
def sorting (s : TypeSystem) (arguments : List Input) : SortCapabilities :=
  match sortNames.findSome? (find? arguments) with
  | some a =>
    { hasSorting := true, param := some a.name, orderByType := (inputObject? s a).map (·.name) }
  | none => {}

/-- The pagination of the arguments: by cursors if a number and a cursor are among them, else by a
number to take and a number to skip, under one pair of names or under any. -/
def pagination (arguments : List Input) : PaginationCapabilities :=
  let has (names : List String) : Bool := names.any fun name => (find? arguments name).isSome
  if has ["first", "last"] && has ["after", "before"] then
    { style := "relay", limit := findName? arguments ["first", "last"] }
  else if has ["take", "skip"] then
    { style := "offset", limit := findName? arguments ["take"]
      offset := findName? arguments ["skip"] }
  else
    let limit := findName? arguments limitNames
    let offset := findName? arguments offsetNames
    if limit.isSome || offset.isSome then { style := "offset", limit, offset } else {}

/-- The capabilities of a list of arguments. -/
def capabilities (s : TypeSystem) (arguments : List Input) : Capabilities :=
  { filter := filters s arguments, sort := sorting s arguments, pagination := pagination arguments }

end SchemaForge.Query.Arguments
