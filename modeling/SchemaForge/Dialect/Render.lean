import SchemaForge.Code.Literal
import SchemaForge.Logged
import SchemaForge.Schema.Entry

/-!
# Rendering

What the renderers of all libraries share: the libraries themselves, the options of a module, the
place of a schema in the module, and the actions that a renderer is made of.

* `Library`: the validator libraries.
* `Context.isForward`: whether a name belongs to the module but is not declared yet.
* `Render`: a value or a fault, with the warnings that arose on the way.
-/

namespace SchemaForge

/-- The validator libraries whose code can be written. -/
inductive Library where
  | zod
  | valibot
  | arktype
  | effect
  deriving DecidableEq, Repr, Inhabited

namespace Library

/-- The libraries in the order in which they are listed. -/
def all : List Library := [.zod, .valibot, .arktype, .effect]

/-- The name of a library. -/
def name : Library → String
  | .zod => "zod"
  | .valibot => "valibot"
  | .arktype => "arktype"
  | .effect => "effect"

/-- The library of a name. -/
def ofName? (name : String) : Option Library := all.find? (·.name == name)

/-- What is said of a name that is no library's. -/
def unknownMessage (name : String) : String :=
  "Unknown validator library: " ++ name ++ ". Supported libraries: "
    ++ ", ".intercalate (all.map Library.name)

end Library

namespace Dialect

/-- The choices for one module. -/
structure Options where
  /-- Code to write for a reference to one of these names. -/
  customScalars : List (String × String) := []
  /-- Whether each schema gets an adapter to the common interface of the libraries. -/
  standardSchema : Bool := false
  deriving Repr, Inhabited

/-- Something to be said about a module. -/
inductive Warning where
  | unsupported (kind : String) (entry : String) (library : Library)
  | forward (name : String) (entry : String)
  deriving DecidableEq, Repr, Inhabited

/-- The text of a warning. -/
def Warning.message : Warning → String
  | .unsupported kind entry library =>
    "Unsupported schema kind \"" ++ kind ++ "\" in " ++ entry
      ++ "; emitted as unknown for " ++ library.name
  | .forward name entry =>
    "Forward reference to \"" ++ name ++ "\" in " ++ entry
      ++ " cannot be expressed as an ArkType constant; emitted as unknown"

/-- The place of a schema in a module. -/
structure Context where
  options : Options
  library : Library
  /-- The names of all entries of the module. -/
  moduleNames : List String
  /-- The names of the entries that stand before the current one. -/
  declared : List String
  /-- The name of the current entry. -/
  current : String
  deriving Repr, Inhabited

namespace Context

/-- The code that replaces a reference; empty code does not count. -/
def customScalar? (ctx : Context) (name : String) : Option String :=
  (ctx.options.customScalars.lookup name).filter (· != "")

/-- Whether a name belongs to the module but is not declared yet. -/
def isForward (ctx : Context) (name : String) : Bool :=
  ctx.moduleNames.contains name && !ctx.declared.contains name

end Context

/-- A value or a fault, with the warnings that arose on the way. -/
abbrev Render (α : Type) : Type := Logged Fault Warning α

/-! ## Texts that every library needs -/

/-- A value that must be a text to be quoted. -/
def quoteValue : Value → Except Fault Code
  | .atom (.str s) => .ok [.quoted [.taken s]]
  | .atom (.moment _) | .atom (.bytes _) => .error .wrongType
  | _ => .error .lacksPart

/-- The key of a property, which must be a text. -/
def fieldKey : Atom → Except Fault Code
  | .str s => .ok (Code.key s)
  | _ => .error .wrongType

/-- A bound in generated code, if it is given, as the argument of a call. -/
def bound (call : Code.Call) (write : Value → String) (v : Value) : List Code :=
  if v.isNull then [] else [call.apply [write v]]

/-- Whether all values of a list are texts. -/
def allTexts (values : List Value) : Bool :=
  values.all fun v => match v with
    | .atom (.str _) => true
    | _ => false

/-- Whether a member of a union stands for null. Members go by their kinds here, so a foreign node
that gives itself this kind stands for null too. -/
def standsForNull (s : Schema) : Bool := s.kind? == some "null"

/-- Whether a member of a union stands for undefined. -/
def standsForUndefined (s : Schema) : Bool := s.kind? == some "undefined"

/-- Whether a member of a union stands for null or for undefined. -/
def isAbsent (s : Schema) : Bool := standsForNull s || standsForUndefined s

/-- Whether a union has a null or an undefined member and another one: then it is the union of the
others with absence added. -/
def splits (members : List Schema) : Bool := members.any isAbsent && members.any (!isAbsent ·)

end Dialect

end SchemaForge
