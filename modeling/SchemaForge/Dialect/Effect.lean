import SchemaForge.Dialect.Builder

/-!
# Effect

Schemas as members of one `Schema` object. Formats are checked by patterns, except for identifiers,
which have a schema of their own.

* `Effect.builder`: the words of Effect.
* `Effect.adapterLine`: the declaration that makes a schema available to other tools.
-/

namespace SchemaForge.Dialect.Effect

open Code (Call)

/-- The schemas without parts. -/
def primitive : Primitive → String
  | .boolean => "Schema.Boolean"
  | .bigint => "Schema.BigIntFromSelf"
  | .null => "Schema.Null"
  | .undefined => "Schema.Undefined"
  | .unknown => "Schema.Unknown"
  | .never => "Schema.Never"
  | .date => "Schema.DateFromSelf"

/-- The pattern that checks a format. -/
def formatPattern : String → Option String
  | "email" => some "/^[^\\s@]+@[^\\s@]+\\.[^\\s@]+$/"
  | "url" => some "/^[a-zA-Z][a-zA-Z\\d+\\-.]*:\\/\\/\\S+$/"
  | "datetime" => some ("/^\\d\x7b4\x7d-\\d\x7b2\x7d-\\d\x7b2\x7d"
      ++ "T\\d\x7b2\x7d:\\d\x7b2\x7d:\\d\x7b2\x7d"
      ++ "(\\.\\d+)?(Z|[+-]\\d\x7b2\x7d:\\d\x7b2\x7d)$/")
  | "date" => some "/^\\d\x7b4\x7d-\\d\x7b2\x7d-\\d\x7b2\x7d$/"
  | "time" => some "/^\\d\x7b2\x7d:\\d\x7b2\x7d:\\d\x7b2\x7d(\\.\\d+)?$/"
  | "ipv4" => some "/^(\\d\x7b1,3\x7d\\.)\x7b3\x7d\\d\x7b1,3\x7d$/"
  | "ipv6" => some "/^[0-9a-fA-F:]+$/"
  | _ => none

/-- The schema of the texts of a format. -/
def format : Option String → String
  | some "uuid" => "Schema.UUID"
  | _ => "Schema.String"

/-- The filters that a format needs. -/
def formatFilters : Option String → List String
  | some fmt => ((formatPattern fmt).map fun p => "Schema.pattern(" ++ p ++ ")").toList
  | none => []

/-- Keys of any name, with values of one schema. -/
def keyed : Call := {
  opening := "Schema.Record(\x7b key: Schema.String, value: ", closing := " \x7d)" }

/-- The words of Effect. -/
def builder : Builder where
  primitive := primitive
  text := format
  textChecks := formatFilters
  number integer := if integer then "Schema.Int" else "Schema.Number"
  minLength := { opening := "Schema.minLength(" }
  maxLength := { opening := "Schema.maxLength(" }
  pattern := { opening := "Schema.pattern(new RegExp(", closing := "))" }
  minimum := { opening := "Schema.greaterThanOrEqualTo(" }
  maximum := { opening := "Schema.lessThanOrEqualTo(" }
  constrain := Builder.pipeAfter { opening := ".pipe(" }
  array := { opening := "Schema.Array(" }
  tuple := { opening := "Schema.Tuple(" }
  record := {
    opening := "Schema.Record(\x7b key: ", closing := " \x7d)", between := ", value: " }
  literal := { opening := "Schema.Literal(" }
  choice := { opening := "Schema.Literal(" }
  choosesAny := true
  union := { opening := "Schema.Union(" }
  allOf := Builder.nested { opening := "Schema.extend(" }
  nullable := { opening := "Schema.NullOr(" }
  optional := { opening := "Schema.UndefinedOr(" }
  nullish := { opening := "Schema.NullishOr(" }
  optionalProperty := { opening := "Schema.optional(" }
  nullishProperty := { opening := "Schema.optional(Schema.NullOr(", closing := "))" }
  object := { opening := "Schema.Struct(" }
  looseObject := {
    opening := "Schema.Struct("
    closing := ", " ++ keyed.opening ++ "Schema.Unknown" ++ keyed.closing ++ ")" }
  strictObject := {
    opening := "Schema.Struct("
    closing := ").annotations(\x7b parseOptions: \x7b onExcessProperty: \"error\" \x7d \x7d)" }
  typedObject := { opening := "Schema.Struct(" }
  furtherValues := keyed
  deferred := { opening := "Schema.suspend((): Schema.Schema<any> => " }

/-- The declaration that adapts a schema to the common interface of the libraries. -/
def adapterLine (schemaVar : String) : String :=
  "export const " ++ Name.adapterVar schemaVar ++ " = Schema.standardSchemaV1(" ++ schemaVar ++ ");"

end SchemaForge.Dialect.Effect
