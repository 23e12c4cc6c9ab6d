import SchemaForge.Dialect.Builder

/-!
# Zod

Schemas in the builder style of Zod: a call for each schema, further calls chained for constraints
and absence.
-/

namespace SchemaForge.Dialect.Zod

/-- The schemas without parts. -/
def primitive : Primitive → String
  | .boolean => "z.boolean()"
  | .bigint => "z.bigint()"
  | .null => "z.null()"
  | .undefined => "z.undefined()"
  | .unknown => "z.unknown()"
  | .never => "z.never()"
  | .date => "z.date()"

/-- The texts of a format. -/
def format : Option String → String
  | some "email" => "z.email()"
  | some "url" => "z.url()"
  | some "uuid" => "z.uuid()"
  | some "datetime" => "z.iso.datetime()"
  | some "date" => "z.iso.date()"
  | some "time" => "z.iso.time()"
  | some "ipv4" => "z.ipv4()"
  | some "ipv6" => "z.ipv6()"
  | _ => "z.string()"

/-- The words of Zod. -/
def builder : Builder where
  primitive := primitive
  text := format
  number _ := "z.number()"
  numberChecks integer := if integer then [".int()"] else []
  minLength := { opening := ".min(" }
  maxLength := { opening := ".max(" }
  pattern := { opening := ".regex(new RegExp(", closing := "))" }
  minimum := { opening := ".min(" }
  maximum := { opening := ".max(" }
  constrain := Builder.chain
  array := { opening := "z.array(" }
  tuple := { opening := "z.tuple([", closing := "])" }
  record := { opening := "z.record(" }
  literal := { opening := "z.literal(" }
  choice := { opening := "z.enum([", closing := "])" }
  union := { opening := "z.union([", closing := "])" }
  allOf := Builder.nested { opening := "z.intersection(" }
  nullable := { opening := "", closing := ".nullable()" }
  optional := { opening := "", closing := ".optional()" }
  nullish := { opening := "", closing := ".nullish()" }
  optionalProperty := { opening := "", closing := ".optional()" }
  nullishProperty := { opening := "", closing := ".nullish()" }
  object := { opening := "z.object(" }
  looseObject := { opening := "z.looseObject(" }
  strictObject := { opening := "z.strictObject(" }
  typedObject := { opening := "z.object(", between := ").catchall(" }
  deferred := { opening := "z.lazy((): z.ZodType<any> => " }

end SchemaForge.Dialect.Zod
