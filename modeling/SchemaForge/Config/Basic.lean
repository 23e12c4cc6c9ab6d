import SchemaForge.Dialect.Render
import SchemaForge.Files.Path

/-!
# Configurations

A configuration says which sources there are, what is made of each, and where it goes. Paths in it
start from the directory of its file.

* `Source`: one source, with its settings and its kind.
* `Config.resolve`: a path of a configuration as seen from the working directory.
-/

namespace SchemaForge

namespace Config

/-- Where a type system is described: exactly one of the two is given and not empty. -/
structure Location where
  file : Option String := none
  url : Option String := none
  deriving DecidableEq, Repr, Inhabited

/-- What sources of every kind say. -/
structure Settings where
  name : String
  library : Library := .zod
  scalars : List (String × String) := []
  headers : List (String × String) := []
  /-- The query fields or operations whose data is fetched when it is needed. -/
  onDemand : List String := []
  standardSchema : Bool := false
  deriving Repr, Inhabited

/-- The kinds of source, each with what it alone says. -/
inductive Kind where
  | graphql (location : Location) (documents : List String)
  | openapi (spec : String) (included excluded : List String)
  deriving Repr, Inhabited

/-- A source. -/
structure Source where
  settings : Settings
  kind : Kind
  deriving Repr, Inhabited

/-- Whether a text given for a value is not empty. -/
def isGiven (text : Option String) : Bool := text.any (· != "")

/-- Whether exactly one of file and address is given. -/
def Location.isSingle (l : Location) : Bool := isGiven l.file != isGiven l.url

/-- Whether a description is fetched and not read from a file. -/
def isRemote (spec : String) : Bool :=
  ["http://", "https://"].any fun scheme => scheme.toList.isPrefixOf spec.toList

end Config

/-- A configuration. -/
structure Config where
  output : String := "src/generated"
  sources : List Config.Source
  /-- The directory of the configuration. -/
  base : Files.Path := .here
  deriving Repr, Inhabited

namespace Config

/-- A path of a configuration as seen from the working directory. -/
def resolve (c : Config) (text : String) : Files.Path := c.base.join (.ofText text)

/-- The directory for what is made. -/
def outputDirectory (c : Config) : Files.Path := c.resolve c.output

end Config

end SchemaForge
