import SchemaForge.GraphQL.Document
import SchemaForge.Value.Basic

/-!
# Type systems

The types that a server knows, by name, and the root types of its operations.

* `TypeSystem.find?`: the type of a name.
* `TypeSystem.possibleTypes`: the types of the objects that may stand at a union or an interface.
* `TypeSystem.allows`: whether an object of a type may stand at a union or an interface.
* `TypeSystem.knows`: whether every part of a type reference has a type.
-/

namespace SchemaForge.GraphQL

/-- An argument of a field, or a field of an input object. -/
structure Input where
  name : String
  type : TypeRef
  description : Value := .null
  deriving Repr, Inhabited

/-- A field of an object or an interface. -/
structure Field where
  name : String
  type : TypeRef
  arguments : List Input := []
  description : Value := .null
  deriving Repr, Inhabited

/-- What a type consists of, by its kind. -/
inductive Shape where
  | scalar
  | object (interfaces : List String) (fields : List Field)
  | interface (interfaces : List String) (fields : List Field)
  | union (members : List String)
  | enum (values : List String)
  | inputObject (fields : List Input)
  deriving Repr, Inhabited

/-- A type with its name. -/
structure NamedType where
  name : String
  description : Value := .null
  shape : Shape
  deriving Repr, Inhabited

namespace NamedType

/-- The kind of a type. -/
def kind (t : NamedType) : TypeKind :=
  match t.shape with
  | .scalar => .scalar
  | .object .. => .object
  | .interface .. => .interface
  | .union _ => .union
  | .enum _ => .enum
  | .inputObject _ => .inputObject

/-- Whether objects of several types may stand at a type. -/
def isAbstract (t : NamedType) : Bool := t.kind == .interface || t.kind == .union

/-- Whether a type is one of objects. -/
def isObject (t : NamedType) : Bool := t.kind == .object

/-- Whether a name is kept for the description of type systems. -/
def isReserved (t : NamedType) : Bool := "__".toList.isPrefixOf t.name.toList

/-- The fields of a type, if its kind has fields. -/
def fields? (t : NamedType) : Option (List Field) :=
  match t.shape with
  | .object _ fields | .interface _ fields => some fields
  | .inputObject fields =>
    some (fields.map fun f => { name := f.name, type := f.type, description := f.description })
  | .scalar | .union _ | .enum _ => none

/-- The field of a name. -/
def field? (t : NamedType) (name : String) : Option Field :=
  (t.fields?.getD []).find? (·.name == name)

/-- The interfaces of a type. -/
def interfaces (t : NamedType) : List String :=
  match t.shape with
  | .object interfaces _ | .interface interfaces _ => interfaces
  | .scalar | .union _ | .enum _ | .inputObject _ => []

/-- All types that the parts of a type name. -/
def typeNames (t : NamedType) : List String :=
  match t.shape with
  | .object interfaces fields | .interface interfaces fields =>
    interfaces ++ fields.flatMap fun f => f.type.name :: f.arguments.map (·.type.name)
  | .union members => members
  | .inputObject fields => fields.map (·.type.name)
  | .scalar | .enum _ => []

end NamedType

/-- The types that a server knows, in order, and the root types of its operations. -/
structure TypeSystem where
  types : List NamedType := []
  roots : Roots := []
  deriving Repr, Inhabited

namespace TypeSystem

/-- The type of a name. -/
def find? (s : TypeSystem) (name : String) : Option NamedType := s.types.find? (·.name == name)

/-- The root type of a kind of operation. -/
def root? (s : TypeSystem) (kind : Name.OperationKind) : Option NamedType :=
  (s.roots.lookup kind).bind s.find?

/-- The types of the objects that may stand at a type: the members of a union in their order, the
types that declare an interface in the order of the type system, once for each declaration. -/
def possibleTypes (s : TypeSystem) (t : NamedType) : List NamedType :=
  match t.shape with
  | .union members => members.filterMap s.find?
  | .interface .. =>
    (s.types.filter NamedType.isObject).flatMap fun o =>
      List.replicate (o.interfaces.count t.name) o
  | .scalar | .object .. | .enum _ | .inputObject _ => []

/-- Whether an object of a type may stand at a union or an interface. -/
def allows (t o : NamedType) : Bool :=
  match t.shape with
  | .union members => members.contains o.name
  | .interface .. => o.interfaces.contains t.name
  | .scalar | .object .. | .enum _ | .inputObject _ => false

/-- Whether the type under all wrappers has a definition. -/
def knows (s : TypeSystem) (t : TypeRef) : Bool := (s.find? t.name).isSome

end TypeSystem

end SchemaForge.GraphQL
