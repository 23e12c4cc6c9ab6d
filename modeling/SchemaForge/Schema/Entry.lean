import SchemaForge.Schema.Basic

/-!
# Named schemas

An entry is a schema under a name, with the names of the other entries that it needs.

* `Entry.of`: the entry of a schema; it needs the names that the schema refers to, except its own.
* `Entry.sort`: an order in which what an entry needs stands before it wherever that is possible.
* `Entry.firstRepeated?`: the first name that two entries share.
-/

namespace SchemaForge

/-- A schema under a name. -/
structure Entry where
  name : String
  schema : Schema
  /-- The names of other entries that this one refers to, each once. -/
  dependencies : List String
  /-- What the schema was made from, such as a component or a response. -/
  category : Option String
  deriving Repr, Inhabited

/-- The entries of one source, in order, and what there is to be said about them. -/
structure Result where
  entries : List Entry := []
  warnings : List String := []
  deriving Repr, Inhabited

/-- Each name of a list once, at its first place. -/
def distinctNames (names : List String) : List String := names.eraseDups

namespace Entry

/-- The entry of a schema. -/
def of (name : String) (schema : Schema) (category : Option String) : Entry :=
  { name, schema, category
    dependencies := (distinctNames schema.refs).filter (· != name) }

/-! ## Order -/

/-- The last entry of a name. -/
def lastOf? (entries : List Entry) (name : String) : Option Entry :=
  entries.reverse.find? (·.name == name)

/-- The place of the last entry of a name. -/
def lastPlace (entries : List Entry) (name : String) : Nat :=
  entries.length - 1 - entries.reverse.findIdx (·.name == name)

/-- The names that an entry needs among the names of a list, in the order of the list. -/
def needs (entries : List Entry) (entry : Entry) : List String :=
  (entry.dependencies.filter fun name => (lastOf? entries name).isSome).mergeSort
    fun a b => lastPlace entries a ≤ lastPlace entries b

/-- What a visit knows: the entries placed so far, and the names whose visit has begun. A name stays
in `seen` after its visit, so the names being visited and those already placed are treated alike:
both are passed over. -/
structure Visit where
  placed : List Entry := []
  seen : List String := []

/-- Visits a name: first what its entry needs, then the entry itself. A name whose visit has begun
is passed over. Each step down begins the visit of one more name, so the number of entries bounds
the depth. -/
def visit (entries : List Entry) : Nat → Visit → String → Visit
  | 0, state, _ => state
  | depth + 1, state, name =>
    if state.seen.contains name then state
    else
      match lastOf? entries name with
      | none => state
      | some entry =>
        let begun := { state with seen := name :: state.seen }
        let done := (needs entries entry).foldl (visit entries depth) begun
        { done with placed := done.placed ++ [entry] }

/-- The entries in an order in which what an entry needs stands before it, except around cycles. Of
several entries of one name only the last is kept. -/
def sort (entries : List Entry) : List Entry :=
  ((entries.map (·.name)).foldl (visit entries (entries.length + 1)) {}).placed

/-! ## Names -/

/-- The first name that stands in a list for the second time. -/
def firstRepeated? (seen : List String) : List Entry → Option String
  | [] => none
  | entry :: rest =>
    if seen.contains entry.name then some entry.name
    else firstRepeated? (entry.name :: seen) rest

/-- What is said of a name that two entries share. -/
def repeatedMessage (name : String) : String :=
  "Schema name \"" ++ name
    ++ "\" is defined more than once; namespace sources before emitting them together"

/-- The place of the first entry of a name. -/
def find? (entries : List Entry) (name : String) : Option Nat :=
  entries.findIdx? (·.name == name)

end Entry

end SchemaForge
