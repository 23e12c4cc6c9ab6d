import SchemaForge.Dialect.Render

/-!
# Libraries of calls

Most libraries write a schema as a call whose arguments are the schemas of its parts. They share one
renderer and differ in their words, and in how checks and intersections are put together.

* `Builder`: the words of a library.
* `Builder.render`: the expression of a schema.
-/

namespace SchemaForge.Dialect

open Code (Call)

/-- The words of a library whose schemas are calls. -/
structure Builder where
  /-- The schemas without parts. -/
  primitive : Primitive → String
  /-- The texts, or those of a format. -/
  text : Option String → String
  /-- The checks that a format needs. -/
  textChecks : Option String → List String := fun _ => []
  /-- The numbers, or the whole ones. -/
  number : Bool → String
  /-- The checks that whole numbers need. -/
  numberChecks : Bool → List String := fun _ => []
  minLength : Call
  maxLength : Call
  pattern : Call
  minimum : Call
  maximum : Call
  /-- A schema with checks after it. -/
  constrain : Code → List Code → Code
  array : Call
  tuple : Call
  record : Call
  literal : Call
  /-- One of several values. -/
  choice : Call
  /-- Whether the values of a choice may be other than texts. -/
  choosesAny : Bool := false
  union : Call
  /-- All of one or more schemas. -/
  allOf : List Code → Code
  /-- A schema that also accepts null, undefined, or both. -/
  nullable : Call
  optional : Call
  nullish : Call
  /-- The value of a property that may be absent, or absent or null. -/
  optionalProperty : Call
  nullishProperty : Call
  /-- An object, by what it says of further keys: nothing, that they may be there, that they may
  not, or what their values look like. -/
  object : Call
  looseObject : Call
  strictObject : Call
  typedObject : Call
  /-- The schema of further values inside such an object. -/
  furtherValues : Call := { opening := "", closing := "" }
  /-- The function that reaches a constant that stands later in the module. -/
  deferred : Call

namespace Builder

/-! ## Ways to put schemas together -/

/-- Checks chained to a schema. -/
def chain (base : Code) (checks : List Code) : Code := base ++ checks.flatten

/-- A schema and its checks as the arguments of a call, if there are any checks. -/
def pipe (call : Call) (base : Code) (checks : List Code) : Code :=
  if checks.isEmpty then base else call.apply (base :: checks)

/-- Checks as the arguments of a method of a schema, if there are any checks. -/
def pipeAfter (call : Call) (base : Code) (checks : List Code) : Code :=
  if checks.isEmpty then base else base ++ call.apply checks

/-- The only one of several schemas, or a call with all of them. -/
def together (call : Call) : List Code → Code
  | [code] => code
  | codes => call.apply codes

/-- The first of several schemas, joined to the others one after another. -/
def nested (call : Call) : List Code → Code
  | [] => []
  | code :: rest => rest.foldl (fun acc next => call.apply [acc, next]) code

variable (b : Builder)

/-! ## Schemas without parts -/

/-- A pattern, if it is given. -/
def patternCheck (pattern : Value) : Except Fault (List Code) :=
  if pattern.isGiven then do
    let quoted ← quoteValue pattern
    return [b.pattern.apply [quoted]]
  else return []

/-- Texts with their constraints. -/
def string (fmt : Option String) (least most pattern : Value) : Except Fault Code := do
  let checks := Code.each (b.textChecks fmt)
    ++ bound b.minLength Value.display least ++ bound b.maxLength Value.display most
  return b.constrain (b.text fmt) (checks ++ (← b.patternCheck pattern))

/-- Numbers with their constraints. -/
def numeric (integer : Bool) (least most : Value) : Code :=
  b.constrain (b.number integer) (Code.each (b.numberChecks integer)
    ++ bound b.minimum Value.number least ++ bound b.maximum Value.number most)

/-- One of several schemas, or the only one. -/
def oneOf (codes : List Code) : Code := together b.union codes

/-- One of a list of values. -/
def enum (values : List Value) : Code :=
  if values.isEmpty then b.primitive .never
  else if b.choosesAny || allTexts values then b.choice.apply (values.map Code.value)
  else b.oneOf (values.map fun v => b.literal.apply [Code.value v])

/-- A constant that stands later in the module. -/
def defer (schemaVar : String) : String := b.deferred.opening ++ schemaVar ++ b.deferred.closing

/-- A reference: a constant that stands later in the module is reached through a function. -/
def ref (ctx : Context) (name : String) : Code :=
  match ctx.customScalar? name with
  | some code => code
  | none =>
    let schemaVar := Name.schemaVar name
    [.reference name (if ctx.isForward name then b.defer schemaVar else schemaVar)]

/-! ## Parts put together -/

/-- A schema that also accepts null or undefined. -/
def absent (hasNull hasUndefined : Bool) (code : Code) : Code :=
  if hasNull && hasUndefined then b.nullish.apply [code]
  else if hasNull then b.nullable.apply [code]
  else b.optional.apply [code]

/-- All of several schemas. -/
def all (codes : List Code) : Code :=
  if codes.isEmpty then b.primitive .unknown else b.allOf codes

/-- The value of a property, with its absence. -/
def property (p : Property Schema) (code : Code) : Code :=
  if p.required then code
  else match p.absence with
    | .optional => b.optionalProperty.apply [code]
    | .nullish => b.nullishProperty.apply [code]

/-! ## Schemas -/

mutual

/-- The expression of a schema. -/
def render (ctx : Context) (depth : Nat) : Schema → Render Code
  | .primitive kind _ => pure (b.primitive kind)
  | .string fmt least most pattern _ => Logged.lift (b.string fmt least most pattern)
  | .number integer least most _ => pure (b.numeric integer least most)
  | .object properties extra _ => do
    let fields ← renderFields ctx (depth + 1) properties
    let body ← Logged.lift (Code.object fields depth)
    renderExtra ctx depth body extra
  | .array items _ => do
    return b.array.apply [← render ctx depth items]
  | .tuple items _ => do
    return b.tuple.apply (← renderAll ctx depth items)
  | .record key value _ => do
    let key ← render ctx depth key
    let value ← render ctx depth value
    return b.record.apply [key, value]
  | .enum values _ => pure (b.enum values)
  | .literal value _ => pure (b.literal.apply [Code.value value])
  | .union members _ => do
    if members.isEmpty then return b.primitive .never
    else if splits members then
      let codes ← renderPresent ctx depth members
      return b.absent (members.any standsForNull) (members.any standsForUndefined) (b.oneOf codes)
    else return b.oneOf (← renderAll ctx depth members)
  | .intersection members _ => do
    return b.all (← renderAll ctx depth members)
  | .ref name _ => pure (b.ref ctx name)
  | .raw code _ => pure code
  | .foreign node => do
    Logged.note (.unsupported node.label ctx.current ctx.library)
    return b.primitive .unknown

/-- The expressions of a list of schemas. -/
def renderAll (ctx : Context) (depth : Nat) : List Schema → Render (List Code)
  | [] => pure []
  | s :: rest => do
    let code ← render ctx depth s
    return code :: (← renderAll ctx depth rest)

/-- The expressions of the members that are neither null nor undefined. -/
def renderPresent (ctx : Context) (depth : Nat) : List Schema → Render (List Code)
  | [] => pure []
  | s :: rest =>
    if isAbsent s then renderPresent ctx depth rest
    else do
      let code ← render ctx depth s
      return code :: (← renderPresent ctx depth rest)

/-- The fields of an object. -/
def renderFields (ctx : Context) (depth : Nat) :
    List (Atom × Property Schema) → Render (List Code.Field)
  | [] => pure []
  | (key, p) :: rest => do
    let code ← render ctx depth p.schema
    let key ← Logged.lift (fieldKey key)
    return { key, value := b.property p code, description := p.description }
      :: (← renderFields ctx depth rest)

/-- An object around its fields, by what it says of further keys. -/
def renderExtra (ctx : Context) (depth : Nat) (body : Code) : Extra Schema → Render Code
  | .unset => pure (b.object.apply [body])
  | .allowed => pure (b.looseObject.apply [body])
  | .rejected => pure (b.strictObject.apply [body])
  | .typed s => do
    let rest ← render ctx depth s
    return b.typedObject.apply [body, b.furtherValues.apply [rest]]

end

end Builder

end SchemaForge.Dialect
