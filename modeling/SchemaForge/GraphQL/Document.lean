import SchemaForge.Name

/-!
# GraphQL documents

A document is a list of definitions: operations and fragments, which a server executes, and
definitions and extensions of a type system.

* `TypeRef`: a named type under list and non-null wrappers.
* `Selection`: what an operation or a fragment asks for.
* `Definition`: one definition of a document.
-/

namespace SchemaForge.GraphQL

/-- A value that is written in a document. -/
inductive Literal where
  | variable (name : String)
  | int (spelling : String)
  | float (spelling : String)
  | text (s : String)
  | boolean (b : Bool)
  | null
  | enum (name : String)
  | list (items : List Literal)
  | object (fields : List (String × Literal))
  deriving Repr, Inhabited

/-- A directive with its arguments. -/
structure Directive where
  name : String
  arguments : List (String × Literal)
  deriving Repr, Inhabited

/-- A named type under list and non-null wrappers. -/
inductive TypeRef where
  | named (name : String)
  | list (item : TypeRef)
  | nonNull (of : TypeRef)
  deriving DecidableEq, Repr, Inhabited

/-- The name under all wrappers. -/
def TypeRef.name : TypeRef → String
  | .named name => name
  | .list item => item.name
  | .nonNull of => of.name

/-- The scalars that need no definition. -/
def standardScalars : List String := ["String", "Int", "Float", "Boolean", "ID"]

/-! ## Executable definitions -/

/-- What is asked for of an object. A field without parts has no selections. -/
inductive Selection where
  | field (label : Option String) (name : String) (arguments : List (String × Literal))
    (directives : List Directive) (selections : List Selection)
  | spread (fragment : String) (directives : List Directive)
  | inline (condition : Option String) (directives : List Directive) (selections : List Selection)
  deriving Repr, Inhabited

/-- A variable of an operation. -/
structure VariableDefinition where
  name : String
  type : TypeRef
  default : Option Literal
  directives : List Directive
  deriving Repr, Inhabited

/-- An operation. -/
structure Operation where
  kind : Name.OperationKind
  name : Option String
  inputs : List VariableDefinition
  directives : List Directive
  selections : List Selection
  deriving Repr, Inhabited

/-- A named selection on a type. -/
structure Fragment where
  name : String
  condition : String
  directives : List Directive
  selections : List Selection
  deriving Repr, Inhabited

/-! ## Definitions of a type system -/

/-- An argument of a field or a directive, or a field of an input object. -/
structure InputDefinition where
  description : Option String
  name : String
  type : TypeRef
  default : Option Literal
  directives : List Directive
  deriving Repr, Inhabited

/-- A field of an object or an interface. -/
structure FieldDefinition where
  description : Option String
  name : String
  arguments : List InputDefinition
  type : TypeRef
  directives : List Directive
  deriving Repr, Inhabited

/-- A value of an enum. -/
structure ValueDefinition where
  description : Option String
  name : String
  directives : List Directive
  deriving Repr, Inhabited

/-- The kinds of a named type. -/
inductive TypeKind where
  | scalar
  | object
  | interface
  | union
  | enum
  | inputObject
  deriving DecidableEq, Repr, Inhabited

/-- What a definition says of a type, by the kind of the type. -/
inductive TypeBody where
  | scalar
  | object (interfaces : List String) (fields : List FieldDefinition)
  | interface (interfaces : List String) (fields : List FieldDefinition)
  | union (members : List String)
  | enum (values : List ValueDefinition)
  | inputObject (fields : List InputDefinition)
  deriving Repr, Inhabited

/-- The kind of a type. -/
def TypeBody.kind : TypeBody → TypeKind
  | .scalar => .scalar
  | .object .. => .object
  | .interface .. => .interface
  | .union _ => .union
  | .enum _ => .enum
  | .inputObject _ => .inputObject

/-- A definition or an extension of a type. Only a definition has a description. -/
structure TypeDefinition where
  description : Option String
  name : String
  directives : List Directive
  body : TypeBody
  deriving Repr, Inhabited

/-- The root types that a schema names for the kinds of operation, in the order of the text. -/
abbrev Roots := List (Name.OperationKind × String)

/-- A definition of a directive, with the names of the places where it may stand. -/
structure DirectiveDefinition where
  name : String
  arguments : List InputDefinition
  directives : List Directive := []
  repeatable : Bool
  locations : List String
  deriving Repr, Inhabited

/-- One definition of a document. -/
inductive Definition where
  | operation (op : Operation)
  | fragment (f : Fragment)
  | schema (directives : List Directive) (roots : Roots)
  | type (t : TypeDefinition)
  | directive (d : DirectiveDefinition)
  | extendSchema (directives : List Directive) (roots : Roots)
  | extendType (t : TypeDefinition)
  | extendDirective (name : String) (directives : List Directive)
  deriving Repr, Inhabited

/-- The definitions of a text, in order. -/
abbrev Document := List Definition

namespace Document

/-- The operations of a document. -/
def operations (d : Document) : List Operation :=
  d.filterMap fun
    | .operation op => some op
    | _ => none

/-- The fragments of a document. -/
def fragments (d : Document) : List Fragment :=
  d.filterMap fun
    | .fragment f => some f
    | _ => none

/-- The definitions of types in a document. -/
def types (d : Document) : List TypeDefinition :=
  d.filterMap fun
    | .type t => some t
    | _ => none

/-- The extensions of types in a document. -/
def extensions (d : Document) : List TypeDefinition :=
  d.filterMap fun
    | .extendType t => some t
    | _ => none

/-- The definitions of directives in a document. -/
def directives (d : Document) : List DirectiveDefinition :=
  d.filterMap fun
    | .directive d => some d
    | _ => none

end Document

end SchemaForge.GraphQL
