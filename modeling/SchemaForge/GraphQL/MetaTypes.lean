import SchemaForge.GraphQL.TypeSystem

/-!
# Types of every type system

Five scalars and the types that describe a type system itself need no definition.

* `standardScalar`: one of the five scalars.
* `metaTypes`: the types that describe a type system.
-/

namespace SchemaForge.GraphQL

/-- A scalar that needs no definition. -/
def standardScalar (name : String) : NamedType := { name, shape := .scalar }

namespace MetaTypes

/-- A type that may be null. -/
abbrev may (name : String) : TypeRef := .named name

/-- A type that may not be null. -/
abbrev must (name : String) : TypeRef := .nonNull (.named name)

/-- A list that may be null, its items may not. -/
abbrev manyOf (name : String) : TypeRef := .list (must name)

/-- A field without a description. -/
def plain (name : String) (type : TypeRef) : Field := { name, type }

/-- A field with a description. -/
def told (name : String) (type : TypeRef) (description : String) : Field :=
  { name, type, description := .str description }

/-- A type with fields. -/
def record (name description : String) (fields : List Field) : NamedType :=
  { name, description := .str description, shape := .object [] fields }

/-- A type with values. -/
def choice (name description : String) (values : List String) : NamedType :=
  { name, description := .str description, shape := .enum values }

/-- The type of a whole type system. -/
def schema : NamedType := record "__Schema"
  ("A GraphQL Schema defines the capabilities of a GraphQL server. It exposes all available types "
    ++ "and directives on the server, as well as the entry points for query, mutation, and "
    ++ "subscription operations.")
  [ plain "description" (may "String"),
    told "types" (.nonNull (manyOf "__Type")) "A list of all types supported by this server.",
    told "queryType" (must "__Type") "The type that query operations will be rooted at.",
    told "mutationType" (may "__Type")
      "If this server supports mutation, the type that mutation operations will be rooted at.",
    told "subscriptionType" (may "__Type")
      ("If this server support subscription, the type that subscription operations will be rooted "
        ++ "at."),
    told "directives" (.nonNull (manyOf "__Directive"))
      "A list of all directives supported by this server." ]

/-- The type of a directive. -/
def directive : NamedType := record "__Directive"
  ("A Directive provides a way to describe alternate runtime execution and type validation "
    ++ "behavior in a GraphQL document.\n\nIn some cases, you need to provide options to alter "
    ++ "GraphQL's execution behavior in ways field arguments will not suffice, such as "
    ++ "conditionally including or skipping a field. Directives provide this by describing "
    ++ "additional information to the executor.")
  [ plain "name" (must "String"), plain "description" (may "String"),
    plain "isRepeatable" (must "Boolean"),
    plain "locations" (.nonNull (manyOf "__DirectiveLocation")),
    plain "args" (.nonNull (manyOf "__InputValue")),
    plain "isDeprecated" (must "Boolean"), plain "deprecationReason" (may "String") ]

/-- The places where a directive may stand. -/
def directiveLocation : NamedType := choice "__DirectiveLocation"
  ("A Directive can be adjacent to many parts of the GraphQL language, a __DirectiveLocation "
    ++ "describes one such possible adjacencies.")
  [ "QUERY", "MUTATION", "SUBSCRIPTION", "FIELD", "FRAGMENT_DEFINITION", "FRAGMENT_SPREAD",
    "INLINE_FRAGMENT", "VARIABLE_DEFINITION", "FRAGMENT_VARIABLE_DEFINITION", "SCHEMA", "SCALAR",
    "OBJECT", "FIELD_DEFINITION", "ARGUMENT_DEFINITION", "INTERFACE", "UNION", "ENUM",
    "ENUM_VALUE", "INPUT_OBJECT", "INPUT_FIELD_DEFINITION", "DIRECTIVE_DEFINITION" ]

/-- The type of a type. -/
def type : NamedType := record "__Type"
  ("The fundamental unit of any GraphQL Schema is the type. There are many kinds of types in "
    ++ "GraphQL as represented by the `__TypeKind` enum.\n\nDepending on the kind of a type, "
    ++ "certain fields describe information about that type. Scalar types provide no information "
    ++ "beyond a name, description and optional `specifiedByURL`, while Enum types provide their "
    ++ "values. Object and Interface types provide the fields they describe. Abstract types, Union "
    ++ "and Interface, provide the Object types possible at runtime. List and NonNull types "
    ++ "compose other types.")
  [ plain "kind" (must "__TypeKind"), plain "name" (may "String"),
    plain "description" (may "String"), plain "specifiedByURL" (may "String"),
    plain "fields" (manyOf "__Field"), plain "interfaces" (manyOf "__Type"),
    plain "possibleTypes" (manyOf "__Type"), plain "enumValues" (manyOf "__EnumValue"),
    plain "inputFields" (manyOf "__InputValue"), plain "ofType" (may "__Type"),
    plain "isOneOf" (may "Boolean") ]

/-- The type of a field. -/
def field : NamedType := record "__Field"
  ("Object and Interface types are described by a list of Fields, each of which has a name, "
    ++ "potentially a list of arguments, and a return type.")
  [ plain "name" (must "String"), plain "description" (may "String"),
    plain "args" (.nonNull (manyOf "__InputValue")), plain "type" (must "__Type"),
    plain "isDeprecated" (must "Boolean"), plain "deprecationReason" (may "String") ]

/-- The type of an argument. -/
def inputValue : NamedType := record "__InputValue"
  ("Arguments provided to Fields or Directives and the input fields of an InputObject are "
    ++ "represented as Input Values which describe their type and optionally a default value.")
  [ plain "name" (must "String"), plain "description" (may "String"), plain "type" (must "__Type"),
    told "defaultValue" (may "String")
      "A GraphQL-formatted string representing the default value for this input value.",
    plain "isDeprecated" (must "Boolean"), plain "deprecationReason" (may "String") ]

/-- The type of a value of an enum. -/
def enumValue : NamedType := record "__EnumValue"
  ("One possible value for a given Enum. Enum values are unique values, not a placeholder for a "
    ++ "string or numeric value. However an Enum value is returned in a JSON response as a string.")
  [ plain "name" (must "String"), plain "description" (may "String"),
    plain "isDeprecated" (must "Boolean"), plain "deprecationReason" (may "String") ]

/-- The kinds of a type, wrappers included. -/
def typeKind : NamedType := choice "__TypeKind"
  "An enum describing what kind of type a given `__Type` is."
  ["SCALAR", "OBJECT", "INTERFACE", "UNION", "ENUM", "INPUT_OBJECT", "LIST", "NON_NULL"]

end MetaTypes

/-- The types that describe a type system. -/
def metaTypes : List NamedType := [
  MetaTypes.schema, MetaTypes.directive, MetaTypes.directiveLocation, MetaTypes.type,
  MetaTypes.field, MetaTypes.inputValue, MetaTypes.enumValue, MetaTypes.typeKind]

/-- The type of a name that needs no definition. -/
def standardType? (name : String) : Option NamedType :=
  (standardScalars.map standardScalar ++ metaTypes).find? (·.name == name)

/-- The type system of these types. Of the standard types those are added that the types name, those
that describe a type system, and what these need. -/
def TypeSystem.ofTypes (types : List NamedType) (further : List String) (roots : Roots) :
    TypeSystem :=
  let named := "String" :: "Boolean" :: types.flatMap NamedType.typeNames ++ further
  let scalars := (standardScalars.filter named.contains).map standardScalar
  let missing := (scalars ++ metaTypes).filter fun t => !types.any (·.name == t.name)
  { types := types ++ missing, roots }

end SchemaForge.GraphQL
