import SchemaForge.Schema.Basic

/-!
# Scalars of a schema

Which schema stands for a scalar: the built-in ones, a few that are common, and those that a caller
gives code for.

* `Scalar.Handler`: how a scalar becomes a schema.
* `Scalar.Registry`: the handlers by name; a later one for a name replaces an earlier one.
-/

namespace SchemaForge.Scalar

/-- How a scalar becomes a schema. -/
inductive Handler where
  /-- Any text, or text of one format. -/
  | text (format : Option String)
  | integer
  | number
  | boolean
  /-- Any value. -/
  | json
  /-- A mapping from texts to any values. -/
  | jsonObject
  /-- Code of a library. -/
  | raw (code : String)
  deriving DecidableEq, Repr, Inhabited

/-- The schema of a scalar. -/
def Handler.schema : Handler → Schema
  | .text format => .text format
  | .integer => .anyNumber true
  | .number => .anyNumber false
  | .boolean => .boolean
  | .json => .unknown
  | .jsonObject => .dictionary .unknown
  | .raw code => .raw code .null

/-- Handlers by name. Each registration has a number of its own, so that two registrations of equal
handlers stay apart. -/
structure Registry where
  handlers : List (String × Nat × Handler)
  /-- The number of the next registration. -/
  next : Nat
  deriving Repr, Inhabited

namespace Registry

/-- Registers a handler; it replaces an earlier one of the same name. -/
def register (r : Registry) (name : String) (h : Handler) : Registry :=
  { handlers := (name, r.next, h) :: r.handlers, next := r.next + 1 }

/-- The handler of a name with the number of its registration. -/
def registration? (r : Registry) (name : String) : Option (Nat × Handler) := r.handlers.lookup name

/-- The handler of a name. -/
def find? (r : Registry) (name : String) : Option Handler := (r.registration? name).map (·.2)

/-- Whether a name has a handler. -/
def has (r : Registry) (name : String) : Bool := (r.find? name).isSome

/-- The schema of a scalar, if it has a handler. -/
def schema? (r : Registry) (name : String) : Option Schema := (r.find? name).map Handler.schema

/-- Whether two names have the same registration, or both none. -/
def sameRegistration (r : Registry) (a b : String) : Bool :=
  (r.registration? a).map (·.1) == (r.registration? b).map (·.1)

/-- Registers each of a list of handlers. -/
def registerAll (r : Registry) (handlers : List (String × Handler)) : Registry :=
  handlers.foldl (fun r (name, h) => r.register name h) r

/-- The scalars that every registry knows. -/
def defaults : List (String × Handler) := [
  ("ID", .text none), ("String", .text none), ("Int", .integer), ("Float", .number),
  ("Boolean", .boolean), ("DateTime", .text (some "datetime")), ("Date", .text (some "date")),
  ("Time", .text (some "time")), ("UUID", .text (some "uuid")), ("JSON", .json),
  ("JSONObject", .jsonObject), ("EmailAddress", .text (some "email")), ("URL", .text (some "url"))]

/-- The registry of the default scalars and of those that a caller gives code for. -/
def ofOverrides (overrides : List (String × String)) : Registry :=
  ({ handlers := [], next := 0 } : Registry).registerAll defaults
    |>.registerAll (overrides.map fun (name, code) => (name, .raw code))

end Registry

end SchemaForge.Scalar
