import SchemaForge.GraphQL.Selection
import SchemaForge.Logged
import SchemaForge.Scalar.Registry

/-!
# Schemas of a type system and its operations

A type without `!` may be null: in a response it is nullable, in an input it may also be missing.
Each layer of a list has its own nullability.

* `Lowering.wrapped`: the layers of a type around the schema of the named type.
* `Lowering.inputObject`, `Lowering.component`, `Lowering.inputs`: the schemas of types and of the
  variables of an operation.
* `Lowering.selection`: the schema of what a selection asks for. A selection on a union or an
  interface with conditions on other types has one shape for each possible type.
-/

namespace SchemaForge.GraphQL

/-- Where a selection stands. -/
inductive Place where
  | fragment (name : String)
  | operation (kind : Name.OperationKind) (name : String)
  deriving DecidableEq, Repr, Inhabited

/-- A place as it is named in a note. -/
def Place.text : Place → String
  | .fragment name => "fragment \"" ++ name ++ "\""
  | .operation kind name => kind.text ++ " \"" ++ name ++ "\""

/-- Something to be said about documents. -/
inductive Note where
  | duplicateEntry (name : String) (category : String)
  | repeatedFragment (name : String)
  | unknownScalar (name : String)
  | fragmentOnUnknownType (name type : String)
  | anonymousOperation (kind : Name.OperationKind)
  | noRootType (kind : Name.OperationKind) (name : String)
  | unknownVariableType (name : String) (place : Place)
  | unknownFragment (name : String) (place : Place)
  | unknownField (name type : String) (place : Place)
  deriving DecidableEq, Repr, Inhabited

/-- The text of a note. -/
def Note.message : Note → String
  | .duplicateEntry name category =>
    "Duplicate schema name \"" ++ name ++ "\" (" ++ category ++ "); keeping the first definition"
  | .repeatedFragment name =>
    "Fragment \"" ++ name ++ "\" is defined more than once; using the first"
  | .unknownScalar name =>
    "Unknown scalar \"" ++ name ++ "\" mapped to unknown; add a scalar mapping to type it"
  | .fragmentOnUnknownType name type =>
    "Fragment \"" ++ name ++ "\" is on unknown type \"" ++ type ++ "\"; skipped"
  | .anonymousOperation kind =>
    "Anonymous " ++ kind.text ++ " skipped; give the operation a name to generate schemas"
  | .noRootType kind name =>
    "Schema has no " ++ kind.text ++ " root type; " ++ kind.text ++ " \"" ++ name ++ "\" skipped"
  | .unknownVariableType name place =>
    "Variable \"$" ++ name ++ "\" in " ++ place.text ++ " has an unknown type; skipped"
  | .unknownFragment name place =>
    "Unknown fragment \"" ++ name ++ "\" spread in " ++ place.text ++ "; skipped"
  | .unknownField name type place =>
    "Field \"" ++ name ++ "\" does not exist on type \"" ++ type ++ "\" (in " ++ place.text
      ++ "); skipped"

/-- What a step of lowering leaves behind: a note, or the name of a type that needs an entry. -/
inductive Event where
  | note (n : Note)
  | reach (type : String)
  deriving DecidableEq, Repr, Inhabited

/-- A step of lowering. -/
abbrev Lower (α : Type) : Type := Logged Fault Event α

/-- What lowering knows. -/
structure Setting where
  system : TypeSystem
  scalars : Scalar.Registry
  fragments : List Fragment
  deriving Repr, Inhabited

/-- A depth of spreads that is never reached: more than there are fragments. -/
def Setting.spreadBound (c : Setting) : Nat := c.fragments.length + 1

namespace Lowering

/-! ## Types -/

/-- The layers of a type around the schema of the named type under them. -/
def wrapped (s : TypeSystem) (build : NamedType → Lower Schema) : TypeRef → Lower Modified
  | .nonNull t => do
    let inner ← wrapped s build t
    return { inner with nullable := false }
  | .list t => do
    let inner ← wrapped s build t
    let items : Modified := { schema := inner.schema, nullable := inner.nullable }
    return { schema := .array items.toSchema .null, nullable := true }
  | .named name =>
    match s.find? name with
    | some t => do return { schema := ← build t, nullable := true }
    | none => return { schema := .unknown, nullable := true }

/-- The schema of a scalar; one that has none is noted. -/
def scalar (scalars : Scalar.Registry) (name : String) : Lower Schema :=
  match scalars.schema? name with
  | some schema => return schema
  | none => do
    Logged.note (.note (.unknownScalar name))
    return .unknown

/-- The schema of a named type in an input. -/
def inputNamed (c : Setting) (t : NamedType) : Lower Schema :=
  if t.kind == .scalar then scalar c.scalars t.name else return .ref t.name .null

/-- The schema of a named type in a component. Types other than scalars and enums need an entry. -/
def componentNamed (c : Setting) (t : NamedType) : Lower Schema :=
  if t.kind == .scalar then scalar c.scalars t.name
  else if t.kind == .enum then return .ref t.name .null
  else do
    Logged.note (.reach t.name)
    return .ref t.name .null

/-- A property for each of a list of fields; a field of a name that is there takes its place. -/
def propertiesOf (fields : List Field) (property : Field → Lower (Property Schema)) :
    Lower (List (Atom × Property Schema)) := do
  let found ← fields.mapM fun f => do return (f.name, ← property f)
  return found.foldl (fun properties (name, p) => setProperty properties (.str name) p) []

/-- A field of an input object: what may be null may also be missing. -/
def inputProperty (c : Setting) (f : Field) : Lower (Property Schema) := do
  let m ← wrapped c.system (inputNamed c) f.type
  let m : Modified := { schema := m.schema, nullish := m.nullable }
  return m.toProperty f.description

/-- The schema of an input object. -/
def inputObject (c : Setting) (t : NamedType) : Lower Schema := do
  return .object (← propertiesOf (t.fields?.getD []) (inputProperty c)) .unset t.description

/-- A field of a component. -/
def componentProperty (c : Setting) (f : Field) : Lower (Property Schema) := do
  return (← wrapped c.system (componentNamed c) f.type).toProperty f.description

/-- The schema of a type that operations reach. -/
def component (c : Setting) (t : NamedType) : Lower Schema := do
  match t.shape with
  | .union members =>
    let members ← members.mapM fun name => do
      Logged.note (.reach name)
      return Schema.ref name .null
    return .union members t.description
  | _ =>
    match t.fields? with
    | some fields =>
      return .object (← propertiesOf fields (componentProperty c)) .unset t.description
    | none => Logged.stop .lacksPart

/-! ## Variables -/

/-- The property of a variable, if its type is known. One that must not be null but has a default
may be missing. -/
def variableProperty (c : Setting) (place : Place) (v : VariableDefinition) :
    Lower (Option (String × Property Schema)) := do
  if c.system.knows v.type then
    let m ← wrapped c.system (inputNamed c) v.type
    let m : Modified :=
      if m.nullable then { schema := m.schema, nullish := true }
      else if v.default.isSome then { schema := m.schema, optional := true }
      else m
    return some (v.name, m.toProperty .null)
  else
    Logged.note (.note (.unknownVariableType v.name place))
    return none

/-- The schema of the variables of an operation. -/
def inputs (c : Setting) (place : Place) (vs : List VariableDefinition) : Lower Schema := do
  let found ← vs.mapM (variableProperty c place)
  let properties := (found.filterMap id).foldl
    (fun properties (name, p) => setProperty properties (.str name) p) []
  return .object properties .unset .null

/-! ## Selections -/

/-- The schema of the field that tells the type of an object. -/
def typeName (t : NamedType) : Schema :=
  if t.isObject then .literal (.str t.name) .null else .text none

/-- The property of a group of uses on a type, if the type has the field. The parts of an object are
lowered by `nested`. -/
def property (c : Setting) (place : Place) (nested : NamedType → List Selection → Lower Schema)
    (t : NamedType) (g : Group) : Lower (Option (Atom × Property Schema)) := do
  if g.first.name == "__typename" then
    return some (.str g.key, ({ schema := typeName t } : Modified).toProperty .null)
  else
    match t.field? g.first.name with
    | none =>
      Logged.note (.note (.unknownField g.first.name t.name place))
      return none
    | some f =>
      let m ← wrapped c.system (fun named => do
        if named.kind == .scalar then scalar c.scalars named.name
        else if named.kind == .enum then return .ref named.name .null
        else
          Logged.note (.reach named.name)
          nested named g.selections) f.type
      return some (.str g.key, { m with optional := g.isConditional }.toProperty f.description)

/-- The schema of the objects of one type for which a selection asks. -/
def shape (c : Setting) (place : Place) (inside : List String)
    (nested : NamedType → List Selection → Lower Schema) (t : NamedType)
    (selections : List Selection) : Lower Schema := do
  let collected := Selection.collect c.system c.fragments t c.spreadBound inside selections
  (Selection.missing collected).forM fun name =>
    Logged.note (.note (.unknownFragment name place))
  let properties ← (Selection.group collected).mapM (property c place nested t)
  return .object (properties.filterMap id) .unset .null

/-- The schema of what a selection asks for. Inside a fragment the fragment itself is not opened. -/
def selectionWithin (c : Setting) (place : Place) (inside : List String) :
    Nat → NamedType → List Selection → Lower Schema
  | 0, _, _ => Logged.stop .endless
  | depth + 1, t, selections =>
    let shape := fun t => shape c place inside (selectionWithin c place inside depth) t selections
    if t.isAbstract
        && Selection.narrows c.fragments t.name c.spreadBound inside selections then do
      match ← (c.system.possibleTypes t).mapM shape with
      | [only] => return only
      | members => return .union members .null
    else shape t

/-- A bound on the depth of a selection. Each step down goes to the parts of another field at
another type, unless a fragment is spread inside its own parts without end. -/
def depthBound (c : Setting) (selections : List Selection) : Nat :=
  (c.fragments.foldl (fun n f => n + Selection.fieldCountOfAll f.selections)
    (Selection.fieldCountOfAll selections + 1)) * (c.system.types.length + 1)

/-- The schema of what a selection asks for. -/
def selection (c : Setting) (place : Place) (inside : List String) (t : NamedType)
    (selections : List Selection) : Lower Schema :=
  selectionWithin c place inside (depthBound c selections) t selections

end Lowering

end SchemaForge.GraphQL
