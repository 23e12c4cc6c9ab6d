import SchemaForge.Value.Basic

/-!
# Schemas

What a value may look like, without regard to any validator library. Documents are lowered to
schemas, and schemas are written out in the code of a library.

* `Schema`: the trees; lengths, bounds, patterns, values and descriptions are document values.
* `Schema.kind?`, `Schema.kinds`: the kind that a schema gives itself, and the kinds of all schemas.
* `Schema.refs`: the names that a schema refers to, in the order of their occurrence.
* `Schema.nullable`, `Schema.nullish`: the schema that also accepts null, or null and undefined.
* `Modified`: a schema with its absence kept apart, until it becomes a schema or a property.
-/

namespace SchemaForge

/-- Schemas without parts. -/
inductive Primitive where
  | boolean
  | bigint
  | null
  | undefined
  | unknown
  | never
  | date
  deriving DecidableEq, Repr, Inhabited

/-- The kind of a schema without parts. -/
def Primitive.kind : Primitive → String
  | .boolean => "boolean"
  | .bigint => "bigint"
  | .null => "null"
  | .undefined => "undefined"
  | .unknown => "unknown"
  | .never => "never"
  | .date => "date"

/-- What stands for a property that is not required: nothing or null, or nothing only. -/
inductive Absence where
  | nullish
  | optional
  deriving DecidableEq, Repr, Inhabited

/-- A property of an object. The absence matters only when the property is not required. -/
structure Property (σ : Type) where
  schema : σ
  required : Bool := true
  absence : Absence := .nullish
  description : Value := .null
  deriving Repr, Inhabited

/-- What an object says of the keys beside its properties: nothing, that they may be there, that
they may not, or what their values look like. -/
inductive Extra (σ : Type) where
  | unset
  | allowed
  | rejected
  | typed (schema : σ)
  deriving Repr, Inhabited

/-- A node of a caller that no library knows. It may give itself any kind, or none. -/
structure Foreign where
  kind? : Option String
  /-- The name of its type, by which it goes when it gives itself no kind. -/
  typeName : String
  description : Value := .null
  deriving Repr, Inhabited

/-- The name by which a foreign node goes. -/
def Foreign.label (node : Foreign) : String := node.kind?.getD node.typeName

/-- A schema. Only requests of a caller hold foreign nodes. -/
inductive Schema where
  | primitive (kind : Primitive) (description : Value)
  | string (format : Option String) (minLength maxLength pattern description : Value)
  | number (integer : Bool) (min max description : Value)
  | object (properties : List (Atom × Property Schema)) (extra : Extra Schema) (description : Value)
  | array (items : Schema) (description : Value)
  | tuple (items : List Schema) (description : Value)
  | record (key value : Schema) (description : Value)
  | enum (values : List Value) (description : Value)
  | literal (value : Value) (description : Value)
  | union (members : List Schema) (description : Value)
  | intersection (members : List Schema) (description : Value)
  | ref (name : String) (description : Value)
  | raw (code : String) (description : Value)
  | foreign (node : Foreign)
  deriving Repr, Inhabited

namespace Schema

/-! ## Short forms -/

abbrev null : Schema := .primitive .null .null
abbrev undefined : Schema := .primitive .undefined .null
abbrev unknown : Schema := .primitive .unknown .null
abbrev never : Schema := .primitive .never .null
abbrev boolean : Schema := .primitive .boolean .null

/-- Any text, or text of one format. -/
abbrev text (format : Option String) : Schema := .string format .null .null .null .null

/-- Any number, or any whole number. -/
abbrev anyNumber (integer : Bool) : Schema := .number integer .null .null .null

/-- An object with text keys and values of one schema. -/
abbrev dictionary (value : Schema) : Schema := .record (text none) value .null

/-! ## Descriptions and names -/

/-- The description of a schema, null when it has none. -/
def description : Schema → Value
  | .primitive _ d | .string _ _ _ _ d | .number _ _ _ d | .object _ _ d | .array _ d | .tuple _ d
  | .record _ _ d | .enum _ d | .literal _ d | .union _ d | .intersection _ d | .ref _ d
  | .raw _ d => d
  | .foreign node => node.description

/-- The schema with another description. -/
def describe (d : Value) : Schema → Schema
  | .primitive kind _ => .primitive kind d
  | .string format least most pattern _ => .string format least most pattern d
  | .number integer least most _ => .number integer least most d
  | .object properties extra _ => .object properties extra d
  | .array items _ => .array items d
  | .tuple items _ => .tuple items d
  | .record key value _ => .record key value d
  | .enum values _ => .enum values d
  | .literal value _ => .literal value d
  | .union members _ => .union members d
  | .intersection members _ => .intersection members d
  | .ref name _ => .ref name d
  | .raw code _ => .raw code d
  | .foreign node => .foreign { node with description := d }

/-- Whether a schema is the null value. -/
def isNull : Schema → Bool
  | .primitive .null _ => true
  | _ => false

/-! ## Kinds -/

/-- The kind that a schema gives itself. -/
def kind? : Schema → Option String
  | .primitive p _ => some p.kind
  | .string .. => some "string"
  | .number .. => some "number"
  | .object .. => some "object"
  | .array .. => some "array"
  | .tuple .. => some "tuple"
  | .record .. => some "record"
  | .enum .. => some "enum"
  | .literal .. => some "literal"
  | .union .. => some "union"
  | .intersection .. => some "intersection"
  | .ref .. => some "ref"
  | .raw .. => some "raw"
  | .foreign node => node.kind?

/-- The kinds of the schemas that the libraries know. -/
def kinds : List String := [
  "string", "number", "boolean", "bigint", "null", "undefined", "unknown", "never", "date",
  "object", "array", "tuple", "record", "enum", "literal", "union", "intersection", "ref", "raw"]

/-! ## References -/

mutual

/-- The names that a schema refers to, in the order of their occurrence. -/
def refs : Schema → List String
  | .ref name _ => [name]
  | .object properties extra _ => refsOfProperties properties ++ refsOfExtra extra
  | .array items _ => items.refs
  | .tuple items _ => refsOfAll items
  | .record key value _ => key.refs ++ value.refs
  | .union members _ => refsOfAll members
  | .intersection members _ => refsOfAll members
  | .primitive .. | .string .. | .number .. | .enum .. | .literal .. | .raw ..
  | .foreign _ => []

/-- The names in a list of schemas. -/
def refsOfAll : List Schema → List String
  | [] => []
  | s :: rest => s.refs ++ refsOfAll rest

/-- The names in the properties of an object. -/
def refsOfProperties : List (Atom × Property Schema) → List String
  | [] => []
  | (_, p) :: rest => p.schema.refs ++ refsOfProperties rest

/-- The names in what an object says of further keys. -/
def refsOfExtra : Extra Schema → List String
  | .typed s => s.refs
  | .unset | .allowed | .rejected => []

end

/-! ## Absence -/

/-- The schema that also accepts null; a union with a null member already does. -/
def nullable (s : Schema) : Schema :=
  match s with
  | .union members _ => if members.any isNull then s else .union [s, .null] .null
  | _ => .union [s, .null] .null

/-- The schema that also accepts null and undefined. -/
def nullish (s : Schema) : Schema := .union [s, .null, .undefined] .null

end Schema

/-- A schema with its absence kept apart from it. -/
structure Modified where
  schema : Schema
  nullable : Bool := false
  optional : Bool := false
  nullish : Bool := false
  deriving Repr, Inhabited

namespace Modified

/-- Whether the value may be missing and may be null. -/
def isNullish (m : Modified) : Bool := m.nullish || (m.nullable && m.optional)

/-- The schema of the value where it is no property. -/
def toSchema (m : Modified) : Schema :=
  if m.isNullish then m.schema.nullish
  else if m.nullable then m.schema.nullable
  else if m.optional then .union [m.schema, .undefined] .null
  else m.schema

/-- The property whose value this is. -/
def toProperty (m : Modified) (description : Value) : Property Schema :=
  if m.isNullish then { schema := m.schema, required := false, description }
  else if m.optional then
    { schema := m.schema, required := false, absence := .optional, description }
  else if m.nullable then { schema := m.schema.nullable, description }
  else { schema := m.schema, description }

end Modified

/-- The properties with one more: in place when its key is there, at the end otherwise. -/
def setProperty (properties : List (Atom × Property Schema)) (key : Atom) (p : Property Schema) :
    List (Atom × Property Schema) :=
  match properties with
  | [] => [(key, p)]
  | entry :: rest =>
    if entry.1.sameKey key then (entry.1, p) :: rest else entry :: setProperty rest key p

end SchemaForge
