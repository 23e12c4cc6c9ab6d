import SchemaForge.Dialect.Builder

/-!
# Valibot

Schemas as function calls: constraints are actions piped after a schema, absence is a call around
it.
-/

namespace SchemaForge.Dialect.Valibot

/-- The schemas without parts. -/
def primitive : Primitive → String
  | .boolean => "v.boolean()"
  | .bigint => "v.bigint()"
  | .null => "v.null()"
  | .undefined => "v.undefined()"
  | .unknown => "v.unknown()"
  | .never => "v.never()"
  | .date => "v.date()"

/-- The action that checks a format. -/
def format : Option String → List String
  | some "email" => ["v.email()"]
  | some "url" => ["v.url()"]
  | some "uuid" => ["v.uuid()"]
  | some "datetime" => ["v.isoTimestamp()"]
  | some "date" => ["v.isoDate()"]
  | some "time" => ["v.isoTime()"]
  | some "ipv4" => ["v.ipv4()"]
  | some "ipv6" => ["v.ipv6()"]
  | _ => []

/-- The words of Valibot. -/
def builder : Builder where
  primitive := primitive
  text _ := "v.string()"
  textChecks := format
  number _ := "v.number()"
  numberChecks integer := if integer then ["v.integer()"] else []
  minLength := { opening := "v.minLength(" }
  maxLength := { opening := "v.maxLength(" }
  pattern := { opening := "v.regex(new RegExp(", closing := "))" }
  minimum := { opening := "v.minValue(" }
  maximum := { opening := "v.maxValue(" }
  constrain := Builder.pipe { opening := "v.pipe(" }
  array := { opening := "v.array(" }
  tuple := { opening := "v.tuple([", closing := "])" }
  record := { opening := "v.record(" }
  literal := { opening := "v.literal(" }
  choice := { opening := "v.picklist([", closing := "])" }
  union := { opening := "v.union([", closing := "])" }
  allOf := Builder.together { opening := "v.intersect([", closing := "])" }
  nullable := { opening := "v.nullable(" }
  optional := { opening := "v.optional(" }
  nullish := { opening := "v.nullish(" }
  optionalProperty := { opening := "v.optional(" }
  nullishProperty := { opening := "v.nullish(" }
  object := { opening := "v.object(" }
  looseObject := { opening := "v.looseObject(" }
  strictObject := { opening := "v.strictObject(" }
  typedObject := { opening := "v.objectWithRest(" }
  deferred := { opening := "v.lazy((): v.GenericSchema<any> => " }

end SchemaForge.Dialect.Valibot
