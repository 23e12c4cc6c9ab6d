import SchemaForge.GraphQL.Document

/-!
# Rules for documents that define a type system

A document that is to define a type system must keep fifteen rules. They concern names that must be
distinct, names that must be known, and where directives may stand.

* `Document.isValid`: whether a document keeps all rules.
* `Document.metaTypes`: the types besides the standard scalars that need no definition.
-/

namespace SchemaForge.GraphQL

/-! ## The parts of a document -/

/-- Directives at one place of a document. -/
structure Site where
  location : String
  directives : List Directive
  deriving Repr, Inhabited

mutual

/-- The places of directives in a selection. -/
def Selection.sites : Selection → List Site
  | .field _ _ _ directives selections =>
    { location := "FIELD", directives } :: Selection.sitesOfAll selections
  | .spread _ directives => [{ location := "FRAGMENT_SPREAD", directives }]
  | .inline _ directives selections =>
    { location := "INLINE_FRAGMENT", directives } :: Selection.sitesOfAll selections

/-- The places of directives in selections. -/
def Selection.sitesOfAll : List Selection → List Site
  | [] => []
  | s :: rest => s.sites ++ Selection.sitesOfAll rest

end

mutual

/-- The arguments of the fields in a selection. -/
def Selection.arguments : Selection → List (List (String × Literal))
  | .field _ _ arguments _ selections => arguments :: Selection.argumentsOfAll selections
  | .spread .. => []
  | .inline _ _ selections => Selection.argumentsOfAll selections

/-- The arguments of the fields in selections. -/
def Selection.argumentsOfAll : List Selection → List (List (String × Literal))
  | [] => []
  | s :: rest => s.arguments ++ Selection.argumentsOfAll rest

end

mutual

/-- The types that the conditions in a selection name. -/
def Selection.conditions : Selection → List String
  | .field _ _ _ _ selections => Selection.conditionsOfAll selections
  | .spread .. => []
  | .inline condition _ selections => condition.toList ++ Selection.conditionsOfAll selections

/-- The types that the conditions in selections name. -/
def Selection.conditionsOfAll : List Selection → List String
  | [] => []
  | s :: rest => s.conditions ++ Selection.conditionsOfAll rest

end

mutual

/-- Whether no object in a value names a field twice. -/
def Literal.isUnambiguous : Literal → Bool
  | .list items => Literal.allUnambiguous items
  | .object fields => decide (fields.map (·.1)).Nodup && Literal.fieldsUnambiguous fields
  | .variable _ | .int _ | .float _ | .text _ | .boolean _ | .null | .enum _ => true

/-- Whether no object in a list of values names a field twice. -/
def Literal.allUnambiguous : List Literal → Bool
  | [] => true
  | v :: rest => v.isUnambiguous && Literal.allUnambiguous rest

/-- Whether no object in the fields of an object names a field twice. -/
def Literal.fieldsUnambiguous : List (String × Literal) → Bool
  | [] => true
  | (_, v) :: rest => v.isUnambiguous && Literal.fieldsUnambiguous rest

end

namespace TypeBody

/-- The fields of an object or an interface. -/
def fields : TypeBody → List FieldDefinition
  | .object _ fields | .interface _ fields => fields
  | .scalar | .union _ | .enum _ | .inputObject _ => []

/-- The fields of an input object. -/
def inputs : TypeBody → List InputDefinition
  | .inputObject fields => fields
  | .scalar | .object .. | .interface .. | .union _ | .enum _ => []

/-- The values of an enum. -/
def values : TypeBody → List ValueDefinition
  | .enum values => values
  | .scalar | .object .. | .interface .. | .union _ | .inputObject _ => []

/-- The names of all fields, of an object or of an input object. -/
def fieldNames (b : TypeBody) : List String := b.fields.map (·.name) ++ b.inputs.map (·.name)

/-- The types that a body names itself: interfaces and members. -/
def parents : TypeBody → List String
  | .object interfaces _ | .interface interfaces _ => interfaces
  | .union members => members
  | .scalar | .enum _ | .inputObject _ => []

/-- The arguments and input fields in a body. -/
def allInputs (b : TypeBody) : List InputDefinition := b.fields.flatMap (·.arguments) ++ b.inputs

/-- All types that a body names. -/
def typeNames (b : TypeBody) : List String :=
  b.parents ++ b.fields.map (·.type.name) ++ b.allInputs.map (·.type.name)

end TypeBody

/-- The place of the directives of a type. -/
def TypeKind.location : TypeKind → String
  | .scalar => "SCALAR"
  | .object => "OBJECT"
  | .interface => "INTERFACE"
  | .union => "UNION"
  | .enum => "ENUM"
  | .inputObject => "INPUT_OBJECT"

/-- The place of the directives of an operation. -/
def operationLocation : Name.OperationKind → String
  | .query => "QUERY"
  | .mutation => "MUTATION"
  | .subscription => "SUBSCRIPTION"

/-- The places of directives inside the body of a type; those of input fields are at a place that
depends on whether the type is defined or extended. -/
def TypeBody.sites (inputLocation : String) (b : TypeBody) : List Site :=
  b.fields.flatMap (fun f =>
    { location := "FIELD_DEFINITION", directives := f.directives } ::
      f.arguments.map fun a => { location := "ARGUMENT_DEFINITION", directives := a.directives })
  ++ b.values.map (fun v => { location := "ENUM_VALUE", directives := v.directives })
  ++ b.inputs.map (fun i => { location := inputLocation, directives := i.directives })

namespace Definition

/-- The places of directives in a definition, its own first. -/
def sites : Definition → List Site
  | .operation op =>
    { location := operationLocation op.kind, directives := op.directives }
      :: op.inputs.map (fun v =>
        { location := "VARIABLE_DEFINITION", directives := v.directives })
      ++ Selection.sitesOfAll op.selections
  | .fragment f =>
    { location := "FRAGMENT_DEFINITION", directives := f.directives }
      :: Selection.sitesOfAll f.selections
  | .schema directives _ | .extendSchema directives _ => [{ location := "SCHEMA", directives }]
  | .type t =>
    { location := t.body.kind.location, directives := t.directives }
      :: t.body.sites "INPUT_FIELD_DEFINITION"
  | .extendType t =>
    { location := t.body.kind.location, directives := t.directives }
      :: t.body.sites "ARGUMENT_DEFINITION"
  | .directive d =>
    { location := "DIRECTIVE_DEFINITION", directives := d.directives }
      :: d.arguments.map fun a => { location := "ARGUMENT_DEFINITION", directives := a.directives }
  | .extendDirective _ directives => [{ location := "DIRECTIVE_DEFINITION", directives }]

/-- The places of directives in a definition that do not share them with another definition: for the
schema, for types and for directives all but its own. -/
def loneSites (d : Definition) : List Site :=
  match d with
  | .schema .. | .extendSchema .. | .type _ | .extendType _ | .directive _ | .extendDirective .. =>
    d.sites.tail
  | .operation _ | .fragment _ => d.sites

/-- The directives of the schema in a definition. -/
def schemaDirectives : Definition → List Directive
  | .schema directives _ | .extendSchema directives _ => directives
  | .operation _ | .fragment _ | .type _ | .directive _ | .extendType _ | .extendDirective .. => []

/-- The directive that is defined or extended, with the directives on it. -/
def directive? : Definition → Option (String × List Directive)
  | .directive d => some (d.name, d.directives)
  | .extendDirective name directives => some (name, directives)
  | .operation _ | .fragment _ | .schema .. | .type _ | .extendSchema .. | .extendType _ => none

/-- The root types that a definition names. -/
def roots : Definition → Roots
  | .schema _ roots | .extendSchema _ roots => roots
  | .operation _ | .fragment _ | .type _ | .directive _ | .extendType _ | .extendDirective .. => []

/-- The type that is defined or extended. -/
def type? : Definition → Option TypeDefinition
  | .type t | .extendType t => some t
  | .operation _ | .fragment _ | .schema .. | .directive _ | .extendSchema ..
  | .extendDirective .. => none

/-- The arguments and input fields in a definition. -/
def inputs : Definition → List InputDefinition
  | .type t | .extendType t => t.body.allInputs
  | .directive d => d.arguments
  | .operation _ | .fragment _ | .schema .. | .extendSchema .. | .extendDirective .. => []

/-- The argument lists in a definition, those of fields and of directives. -/
def argumentLists (d : Definition) : List (List (String × Literal)) :=
  (d.sites.flatMap fun s => s.directives.map (·.arguments)) ++
    match d with
    | .operation op => Selection.argumentsOfAll op.selections
    | .fragment f => Selection.argumentsOfAll f.selections
    | .schema .. | .type _ | .directive _ | .extendSchema .. | .extendType _
    | .extendDirective .. => []

/-- The default values in a definition. -/
def defaults (d : Definition) : List Literal :=
  match d with
  | .operation op => op.inputs.filterMap (·.default)
  | _ => d.inputs.filterMap (·.default)

/-- The types that a definition of the type system names. -/
def systemTypeNames (d : Definition) : List String :=
  match d with
  | .type t | .extendType t => t.body.typeNames
  | .directive d => d.arguments.map (·.type.name)
  | .schema .. | .extendSchema .. => d.roots.map (·.2)
  | .operation _ | .fragment _ | .extendDirective .. => []

/-- The types that an operation or a fragment names. -/
def executableTypeNames : Definition → List String
  | .operation op =>
    op.inputs.map (·.type.name) ++ Selection.conditionsOfAll op.selections
  | .fragment f => f.condition :: Selection.conditionsOfAll f.selections
  | .schema .. | .type _ | .directive _ | .extendSchema .. | .extendType _
  | .extendDirective .. => []

end Definition

namespace Document

/-! ## What needs no definition -/

/-- The types that describe a type system itself. -/
def metaTypes : List String :=
  ["__Schema", "__Directive", "__DirectiveLocation", "__Type", "__Field", "__InputValue",
    "__EnumValue", "__TypeKind"]

/-- A required argument of a standard directive. -/
def requiredArgument (name type : String) : InputDefinition :=
  { description := none, name, type := .nonNull (.named type), default := none, directives := [] }

/-- An argument of a standard directive that has a default. -/
def defaultedArgument (name type : String) (default : Literal) : InputDefinition :=
  { description := none, name, type := .nonNull (.named type), default := some default
    directives := [] }

/-- The places of the directives that decide whether something is asked for. -/
def conditionalLocations : List String := ["FIELD", "FRAGMENT_SPREAD", "INLINE_FRAGMENT"]

/-- The directives that need no definition. -/
def standardDirectives : List DirectiveDefinition := [
  { name := "include", arguments := [requiredArgument "if" "Boolean"], repeatable := false
    locations := conditionalLocations },
  { name := "skip", arguments := [requiredArgument "if" "Boolean"], repeatable := false
    locations := conditionalLocations },
  { name := "deprecated"
    arguments := [defaultedArgument "reason" "String" (.text "No longer supported")]
    repeatable := false
    locations := ["FIELD_DEFINITION", "ARGUMENT_DEFINITION", "INPUT_FIELD_DEFINITION",
      "ENUM_VALUE", "DIRECTIVE_DEFINITION"] },
  { name := "specifiedBy", arguments := [requiredArgument "url" "String"], repeatable := false
    locations := ["SCALAR"] },
  { name := "oneOf", arguments := [], repeatable := false, locations := ["INPUT_OBJECT"] }]

/-- The definition of a directive: the one in the document, or else the standard one. -/
def directive? (d : Document) (name : String) : Option DirectiveDefinition :=
  (d.directives ++ standardDirectives).find? (·.name == name)

/-- The parts of a type in its definition and its extensions, in order. -/
def partsOf (d : Document) (name : String) : List TypeDefinition :=
  (d.filterMap Definition.type?).filter (·.name == name)

/-- The directives on a directive, in its definition and its extensions, in order. -/
def directivesOn (d : Document) (name : String) : List Directive :=
  ((d.filterMap Definition.directive?).filter (·.1 == name)).flatMap (·.2)

/-- The names of all directives that are defined or extended. -/
def namesOfDirectives (d : Document) : List String :=
  ((d.filterMap Definition.directive?).map (·.1)).eraseDups

/-- The names of all types that are defined or extended. -/
def namesOfParts (d : Document) : List String :=
  ((d.filterMap Definition.type?).map (·.name)).eraseDups

/-! ## Names that must be distinct -/

/-- Whether the names of a list are distinct. -/
def distinct (names : List String) : Bool := decide names.Nodup

/-- At most one schema definition. -/
def hasLoneSchema (d : Document) : Bool :=
  (d.filter fun
    | .schema .. => true
    | _ => false).length ≤ 1

/-- Each kind of operation has at most one root type. -/
def hasDistinctRoots (d : Document) : Bool := decide ((d.flatMap Definition.roots).map (·.1)).Nodup

/-- No type and no directive is defined twice. -/
def hasDistinctDefinitions (d : Document) : Bool :=
  distinct (d.types.map (·.name)) && distinct (d.directives.map (·.name))

/-- No type has two fields or two values of one name, extensions included. -/
def hasDistinctParts (d : Document) : Bool :=
  d.namesOfParts.all fun name =>
    let parts := d.partsOf name
    distinct (parts.flatMap (·.body.fieldNames))
      && distinct (parts.flatMap fun t => t.body.values.map (·.name))

/-- No field and no directive has two arguments of one name. -/
def hasDistinctArgumentDefinitions (d : Document) : Bool :=
  (d.filterMap Definition.type?).all (fun t =>
    t.body.fields.all fun f => distinct (f.arguments.map (·.name)))
  && d.directives.all fun d => distinct (d.arguments.map (·.name))

/-- No argument is given twice, and no object names a field twice. -/
def hasDistinctArguments (d : Document) : Bool :=
  d.all fun definition =>
    definition.argumentLists.all (fun arguments =>
      distinct (arguments.map (·.1)) && arguments.all (·.2.isUnambiguous))
    && definition.defaults.all Literal.isUnambiguous

/-! ## Names that must be known -/

/-- Each type that is named is defined, or is a type of the standard where the type system is
defined. -/
def hasKnownTypes (d : Document) : Bool :=
  let defined := d.types.map (·.name)
  d.all fun definition =>
    definition.executableTypeNames.all (defined.contains ·)
    && definition.systemTypeNames.all fun name =>
      defined.contains name || standardScalars.contains name || metaTypes.contains name

/-- Only what is defined is extended, and as what it is. -/
def hasPossibleExtensions (d : Document) : Bool :=
  d.extensions.all fun e =>
    match d.types.reverse.find? (·.name == e.name) with
    | some t => t.body.kind == e.body.kind
    | none => false

/-! ## Directives -/

/-- Each directive is known, stands at a place where it may stand, has no unknown argument and all
required ones. -/
def hasKnownDirectives (d : Document) : Bool :=
  d.all fun definition => definition.sites.all fun site => site.directives.all fun use =>
    match d.directive? use.name with
    | none => false
    | some known =>
      known.locations.contains site.location
      && use.arguments.all (fun a => known.arguments.any (·.name == a.1))
      && known.arguments.all fun a => match a.type, a.default with
        | .nonNull _, none => use.arguments.any (·.1 == a.name)
        | _, _ => true

/-- Whether of the directives that may not be repeated each stands at most once in a list. -/
def repeatsOnlyRepeatable (d : Document) (directives : List Directive) : Bool :=
  distinct ((directives.map (·.name)).filter fun name =>
    match d.directive? name with
    | some known => !known.repeatable
    | none => false)

/-- A directive that may not be repeated stands at most once at each place. The schema is one place
with all its extensions, and so are each type and each directive. -/
def hasDistinctDirectives (d : Document) : Bool :=
  d.repeatsOnlyRepeatable (d.flatMap Definition.schemaDirectives)
  && d.namesOfParts.all (fun name =>
    d.repeatsOnlyRepeatable ((d.partsOf name).flatMap (·.directives)))
  && d.namesOfDirectives.all (fun name => d.repeatsOnlyRepeatable (d.directivesOn name))
  && d.all fun definition => definition.loneSites.all fun site =>
    d.repeatsOnlyRepeatable site.directives

/-! ## All rules -/

/-- Whether a document keeps all rules for the definition of a type system. -/
def isValid (d : Document) : Bool :=
  d.hasLoneSchema && d.hasDistinctRoots && d.hasDistinctDefinitions && d.hasDistinctParts
    && d.hasDistinctArgumentDefinitions && d.hasDistinctArguments && d.hasKnownTypes
    && d.hasPossibleExtensions && d.hasKnownDirectives && d.hasDistinctDirectives

end Document

end SchemaForge.GraphQL
