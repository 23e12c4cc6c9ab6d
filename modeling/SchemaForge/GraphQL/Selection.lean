import SchemaForge.GraphQL.TypeSystem

/-!
# What a selection asks for

The fields of a selection are collected for one type: inline fragments and spreads that apply to the
type are opened, all others are passed over.

* `collect`: the fields in their order, and the fragments that do not exist.
* `group`: the fields that share a key in the response, in the order of the keys.
* `narrows`: whether a selection has conditions on other types than its own.
-/

namespace SchemaForge.GraphQL

/-- A field as it is asked for at one place. -/
structure Use where
  name : String
  directives : List Directive
  selections : List Selection
  deriving Repr, Inhabited

/-- One thing that is found in a selection: a field under its key in the response, or a spread of a
fragment that does not exist. -/
inductive Collected where
  | field (key : String) (use : Use)
  | missing (fragment : String)
  deriving Repr, Inhabited

/-- The uses of fields that share a key in the response. -/
structure Group where
  key : String
  first : Use
  more : List Use
  deriving Repr, Inhabited

namespace Group

/-- All uses in a group. -/
def uses (g : Group) : List Use := g.first :: g.more

/-- The selections of all uses, one after another. -/
def selections (g : Group) : List Selection := g.uses.flatMap (·.selections)

/-- Whether a directive decides if a use is part of the response. -/
def isConditional (g : Group) : Bool :=
  g.uses.any fun u => u.directives.any fun d => d.name == "include" || d.name == "skip"

end Group

namespace Selection

/-- The fragment of a name. -/
def fragment? (fragments : List Fragment) (name : String) : Option Fragment :=
  fragments.find? (·.name == name)

/-- Whether a selection with a condition on a type applies to objects of a type. -/
def applies (s : TypeSystem) (t : NamedType) (condition : String) : Bool :=
  condition == t.name ||
    match s.find? condition with
    | some c => c.isAbstract && t.isObject && TypeSystem.allows c t
    | none => false

/-! ## Fields -/

mutual

/-- The fields in a selection, with what spreads and conditions mean left open. -/
def collectOne (spread : String → List Collected) (accepts : String → Bool) :
    Selection → List Collected
  | .field label name _ directives selections =>
    [.field (label.getD name) { name, directives, selections }]
  | .spread fragment _ => spread fragment
  | .inline none _ selections => collectWith spread accepts selections
  | .inline (some condition) _ selections =>
    if accepts condition then collectWith spread accepts selections else []

/-- The fields in selections, with what spreads and conditions mean left open. -/
def collectWith (spread : String → List Collected) (accepts : String → Bool) :
    List Selection → List Collected
  | [] => []
  | s :: rest => collectOne spread accepts s ++ collectWith spread accepts rest

end

/-- The fields in selections for one type. A fragment is not opened inside itself: `inside` holds
the names of those that are open. Each spread opens one more, so a depth above the number of
fragments is never used up. -/
def collect (s : TypeSystem) (fragments : List Fragment) (t : NamedType) :
    Nat → List String → List Selection → List Collected
  | 0, _, selections => collectWith (fun _ => []) (applies s t) selections
  | depth + 1, inside, selections =>
    collectWith (fun name =>
      match fragment? fragments name with
      | none => [.missing name]
      | some f =>
        if inside.contains name then []
        else if applies s t f.condition then
          collect s fragments t depth (name :: inside) f.selections
        else []) (applies s t) selections

/-- Adds a use to the group of its key, or a new group at the end. -/
def addUse (groups : List Group) (key : String) (use : Use) : List Group :=
  match groups with
  | [] => [{ key, first := use, more := [] }]
  | g :: rest =>
    if g.key == key then { g with more := g.more ++ [use] } :: rest else g :: addUse rest key use

/-- The fields by their key in the response, in the order of the keys. -/
def group (collected : List Collected) : List Group :=
  collected.foldl (fun groups c => match c with
    | .field key use => addUse groups key use
    | .missing _ => groups) []

/-- The fragments that are spread but do not exist. -/
def missing (collected : List Collected) : List String :=
  collected.filterMap fun
    | .missing name => some name
    | .field .. => none

/-! ## Conditions -/

mutual

/-- Whether a selection has a condition on another type, with what spreads mean left open. -/
def narrowsOne (spread : String → Bool) (parent : String) : Selection → Bool
  | .field .. => false
  | .spread fragment _ => spread fragment
  | .inline none _ selections => narrowsWith spread parent selections
  | .inline (some condition) _ selections =>
    condition != parent || narrowsWith spread parent selections

/-- Whether selections have a condition on another type, with what spreads mean left open. -/
def narrowsWith (spread : String → Bool) (parent : String) : List Selection → Bool
  | [] => false
  | s :: rest => narrowsOne spread parent s || narrowsWith spread parent rest

end

/-- Whether selections have a condition on another type than `parent`, in themselves or in the
fragments that they spread. -/
def narrows (fragments : List Fragment) (parent : String) :
    Nat → List String → List Selection → Bool
  | 0, _, selections => narrowsWith (fun _ => false) parent selections
  | depth + 1, inside, selections =>
    narrowsWith (fun name =>
      match fragment? fragments name with
      | none => false
      | some f =>
        !inside.contains name
          && (f.condition != parent
            || narrows fragments parent depth (name :: inside) f.selections))
      parent selections

/-! ## Size -/

mutual

/-- The number of fields in a selection, at any depth. -/
def fieldCount : Selection → Nat
  | .field _ _ _ _ selections => 1 + fieldCountOfAll selections
  | .spread .. => 0
  | .inline _ _ selections => fieldCountOfAll selections

/-- The number of fields in selections, at any depth. -/
def fieldCountOfAll : List Selection → Nat
  | [] => 0
  | s :: rest => fieldCount s + fieldCountOfAll rest

end

end Selection

end SchemaForge.GraphQL
