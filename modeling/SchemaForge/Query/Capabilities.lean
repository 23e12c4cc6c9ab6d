/-!
# Query capabilities

What a list query lets its caller leave to the server: filtering, sorting and pagination.

* `Capabilities.any`: whether there is anything at all.
* `Capabilities.preset?`: the style of predicates that the server understands.
* `Capabilities.syncWarning?`: what is said of an entity whose query has no capabilities.
-/

namespace SchemaForge.Query

/-- Filtering. The style and the other texts are as the caller or an analysis gives them. -/
structure FilterCapabilities where
  hasFiltering : Bool := false
  style : Option String := none
  inputType : Option String := none
  params : List String := []
  deriving DecidableEq, Repr, Inhabited

/-- Sorting. -/
structure SortCapabilities where
  hasSorting : Bool := false
  param : Option String := none
  orderByType : Option String := none
  deriving DecidableEq, Repr, Inhabited

/-- Pagination, in one of the styles `relay`, `cursor`, `offset`, `page` and `none`. -/
structure PaginationCapabilities where
  style : String := "none"
  limit : Option String := none
  offset : Option String := none
  page : Option String := none
  perPage : Option String := none
  deriving DecidableEq, Repr, Inhabited

/-- What a list query lets its caller leave to the server. -/
structure Capabilities where
  filter : FilterCapabilities := {}
  sort : SortCapabilities := {}
  pagination : PaginationCapabilities := {}
  deriving DecidableEq, Repr, Inhabited

/-- Whether a name ends in one of several texts. -/
def endsInAny (name : String) (ends : List String) : Bool :=
  ends.any fun e => e.toList.isSuffixOf name.toList

/-- Whether a name ends in one of several texts, a line feed at its end aside. -/
def endsLike (name : String) (ends : List String) : Bool :=
  let cs := name.toList
  let trimmed := if cs.getLast? == some '\n' then cs.dropLast else cs
  ends.any fun e => e.toList.isSuffixOf cs || e.toList.isSuffixOf trimmed

/-- The style of an ordering input, by the end of its name. -/
def orderByStyle? (typeName : String) : Option String :=
  if endsLike typeName ["_order_by"] then some "hasura"
  else if endsLike typeName ["OrderByInput", "OrderByWithRelationInput"] then some "prisma"
  else none

namespace Capabilities

/-- Whether there is anything that the server can do. -/
def any (c : Capabilities) : Bool :=
  c.filter.hasFiltering || c.sort.hasSorting || c.pagination.style != "none"

/-- The style of predicates that the server understands: that of the filter unless it is its own,
or else that of the ordering. -/
def preset? (c : Capabilities) : Option String :=
  let style := c.filter.style.getD ""
  if c.filter.hasFiltering && style != "" && style != "custom" then some style
  else
    match c.sort.orderByType with
    | some name => if name == "" then none else orderByStyle? name
    | none => none

/-- What is said of an entity whose query has no capabilities. -/
def syncWarning? (entity : String) (c : Capabilities) : Option String :=
  if c.any then none
  else some ("Entity \"" ++ entity ++ "\" configured for on-demand sync, but no filtering "
    ++ "arguments detected on the query field. Collection will fetch all data regardless of "
    ++ "predicates.")

end Capabilities

end SchemaForge.Query
