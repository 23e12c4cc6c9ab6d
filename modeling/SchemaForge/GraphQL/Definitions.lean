import SchemaForge.GraphQL.Mark
import SchemaForge.GraphQL.MetaTypes
import SchemaForge.GraphQL.Reader
import SchemaForge.GraphQL.Validity

/-!
# The type system that a document defines

The types come in the order of their definitions. An extension adds to the type that it names. Where
a schema names no root types, those of the customary names are taken.

* `TypeSystem.ofDocument`: the type system of the definitions in a document.
* `TypeSystem.ofText`: the type system that a text defines, or why it defines none.
-/

namespace SchemaForge.GraphQL

/-- A description as a value. -/
def descriptionValue (d : Option String) : Value := (d.map Value.str).getD .null

/-- An argument or an input field. -/
def InputDefinition.toInput (d : InputDefinition) : Input :=
  { name := d.name, type := d.type, description := descriptionValue d.description }

/-- A field. -/
def FieldDefinition.toField (d : FieldDefinition) : Field :=
  { name := d.name, type := d.type, arguments := d.arguments.map InputDefinition.toInput
    description := descriptionValue d.description }

/-- What a body says, as the shape of a type. -/
def TypeBody.toShape : TypeBody → Shape
  | .scalar => .scalar
  | .object interfaces fields => .object interfaces (fields.map FieldDefinition.toField)
  | .interface interfaces fields => .interface interfaces (fields.map FieldDefinition.toField)
  | .union members => .union members
  | .enum values => .enum (values.map (·.name))
  | .inputObject fields => .inputObject (fields.map InputDefinition.toInput)

/-- A shape with the parts of another shape of its kind after its own. -/
def Shape.extend : Shape → Shape → Shape
  | .object i f, .object i' f' => .object (i ++ i') (f ++ f')
  | .interface i f, .interface i' f' => .interface (i ++ i') (f ++ f')
  | .union m, .union m' => .union (m ++ m')
  | .enum v, .enum v' => .enum (v ++ v')
  | .inputObject f, .inputObject f' => .inputObject (f ++ f')
  | s, _ => s

namespace TypeSystem

/-- The type of a definition, with its extensions. A type of the standard stays what it is. -/
def typeOf (extensions : List TypeDefinition) (d : TypeDefinition) : NamedType :=
  (standardType? d.name).getD
    { name := d.name
      description := descriptionValue d.description
      shape := (extensions.filter (·.name == d.name)).foldl (fun s e => s.extend e.body.toShape)
        d.body.toShape }

/-- The root types of the customary names. -/
def customaryRoots (types : List NamedType) : Roots :=
  [(.query, "Query"), (.mutation, "Mutation"), (.subscription, "Subscription")].filter
    fun (_, name) => types.any (·.name == name)

/-- The root types of a document: those of its schema and of the schema's extensions. Without a
schema the types of the customary names come before those of extensions. -/
def rootsOf (d : Document) (types : List NamedType) : Roots :=
  let named := d.flatMap Definition.roots
  let hasSchema := d.any fun
    | .schema .. => true
    | _ => false
  if hasSchema then named else customaryRoots types ++ named

/-- The type system of the definitions in a document. -/
def ofDocument (d : Document) : TypeSystem :=
  let types := d.types.map (typeOf d.extensions)
  ofTypes types (d.directives.flatMap fun d => d.arguments.map (·.type.name)) (rootsOf d types)

/-- Why a text does not define a type system. -/
inductive Refusal where
  /-- The text is no document. -/
  | unreadable
  /-- The document breaks a rule. -/
  | invalid
  /-- A mark is given what is no text. -/
  | badMark
  deriving DecidableEq, Repr, Inhabited

/-- The type system that a text defines. -/
def ofText (text : String) : Except Refusal TypeSystem :=
  match Document.read? text with
  | none => .error .unreadable
  | some d =>
    if !d.isValid then .error .invalid
    else if d.hasSoundMarks then .ok (ofDocument d)
    else .error .badMark

end TypeSystem

end SchemaForge.GraphQL
