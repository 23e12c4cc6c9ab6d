import SchemaForge.GraphQL.MetaTypes
import SchemaForge.GraphQL.Validity

/-!
# Marks on the parts of a type system

Two standard directives are read where a type system is built: `deprecated`, with a reason, on
fields, arguments, values and directives, and `specifiedBy`, with an address, on scalars. What they
are given must be a text, whatever a document itself says of a directive of that name.

* `Mark.isSound`: whether a mark can be read from the directives at one place.
* `Document.hasSoundMarks`: whether all marks of a document can be read.
-/

namespace SchemaForge.GraphQL

/-- A standard directive that is read, with its only argument. -/
structure Mark where
  directive : String
  argument : String
  /-- Whether the argument may be left out. -/
  hasDefault : Bool
  deriving DecidableEq, Repr, Inhabited

namespace Mark

/-- Something is out of use. -/
def deprecated : Mark := { directive := "deprecated", argument := "reason", hasDefault := true }

/-- A scalar is described elsewhere. -/
def specifiedBy : Mark := { directive := "specifiedBy", argument := "url", hasDefault := false }

/-- Whether a directive gives the mark a text, or leaves out what may be left out. -/
def accepts (m : Mark) (d : Directive) : Bool :=
  match d.arguments.lookup m.argument with
  | some (.text _) => true
  | some _ => false
  | none => m.hasDefault

/-- Whether a mark can be read from the directives at one place, where the first one of its name
counts. -/
def isSound (m : Mark) (directives : List Directive) : Bool :=
  (directives.find? (·.name == m.directive)).all m.accepts

end Mark

/-- Whether the marks of a definition or an extension of a type can be read. A type of the standard
stays what it is, so nothing is read of it. -/
def TypeDefinition.hasSoundMarks (t : TypeDefinition) : Bool :=
  (standardType? t.name).isSome
  || (t.body.kind != .scalar || Mark.specifiedBy.isSound t.directives)
    && (t.body.sites "INPUT_FIELD_DEFINITION").all (Mark.deprecated.isSound ·.directives)

/-- Whether all marks of a document can be read. An extension of a directive that is not defined is
passed over. -/
def Document.hasSoundMarks (d : Document) : Bool :=
  d.all fun definition => match definition with
    | .type t | .extendType t => t.hasSoundMarks
    | .directive _ => definition.sites.all (Mark.deprecated.isSound ·.directives)
    | .extendDirective name directives =>
      !d.directives.any (·.name == name) || Mark.deprecated.isSound directives
    | .operation _ | .fragment _ | .schema .. | .extendSchema .. => true

end SchemaForge.GraphQL
