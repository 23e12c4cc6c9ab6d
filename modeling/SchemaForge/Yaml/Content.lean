import SchemaForge.Yaml.Node

/-!
# The values of YAML documents

A node becomes a value by its tag. Mappings that are merged into another come before its own
entries, which take their places where keys are equal.

* `Node.merged`: a tree whose merges are carried out.
* `Node.value`: the value of a tree.
* `Yaml.read`: the value that a text spells.
-/

namespace SchemaForge.Yaml

namespace Base64

/-- The value of a digit in base sixty-four. -/
def digit? (c : Char) : Option Nat :=
  if 'A' ≤ c && c ≤ 'Z' then some (c.toNat - 65)
  else if 'a' ≤ c && c ≤ 'z' then some (c.toNat - 71)
  else if c.isDigit then some (c.toNat + 4)
  else if c == '+' then some 62
  else if c == '/' then some 63
  else none

/-- The bytes of digits, three for four. -/
def bytes : List Nat → List UInt8
  | a :: b :: c :: d :: rest =>
    UInt8.ofNat (4 * a + b / 16) :: UInt8.ofNat (16 * b + c / 4) :: UInt8.ofNat (64 * c + d)
      :: bytes rest
  | [a, b, c] => [UInt8.ofNat (4 * a + b / 16), UInt8.ofNat (16 * b + c / 4)]
  | [a, b] => [UInt8.ofNat (4 * a + b / 16)]
  | _ => []

/-- The bytes that a text spells. What is no digit is passed over; with the padding the digits come
in fours. -/
def decode? (text : String) : Option (List UInt8) :=
  let digits := (text.toList.takeWhile (· != '=')).filterMap digit?
  let padding := (text.toList.filter (· == '=')).length
  let missing := (4 - digits.length % 4) % 4
  if missing == 3 || padding < missing then none else some (bytes digits)

end Base64

namespace Node

/-! ## Merges -/

/-- A problem with a node. -/
def refuse {α : Type} (context : Option (String × Mark)) (problem : String) (mark : Mark) :
    Except Refusal α :=
  .error (.problem
    { context := context.map (·.1), contextMark := context.map (·.2), problem, mark })

/-- The entries of a node that is merged into another. -/
def mergeable (outer : Mark) (what : String) : Node → Except Refusal (List (Node × Node))
  | .mapping _ _ entries => .ok entries
  | n =>
    refuse (some ("while constructing a mapping", outer))
      ("expected " ++ what ++ " for merging, but found " ++ n.kindName) n.mark

/-- The entries that a merge key brings: those of a mapping, or of several of which the first counts
most. -/
def mergedEntries (outer : Mark) : Node → Except Refusal (List (Node × Node))
  | .sequence _ _ items => do
    return ((← items.mapM (mergeable outer "a mapping")).reverse).flatten
  | n => mergeable outer "a mapping or list of mappings" n

/-- Carries out the merges among the entries of a mapping: what is merged comes first. A key that is
an equals sign is a text. -/
def mergeEntries (outer : Mark) (entries : List (Node × Node)) :
    Except Refusal (List (Node × Node)) := do
  let brought ← (entries.filter (·.1.tag == Tag.core "merge")).mapM (mergedEntries outer ·.2)
  let own := (entries.filter (·.1.tag != Tag.core "merge")).map fun (key, value) =>
    match key with
    | .scalar tag mark text =>
      (if tag == Tag.core "value" then .scalar (Tag.core "str") mark text else key, value)
    | _ => (key, value)
  return brought.flatten ++ own

mutual

/-- A tree whose merges are carried out. -/
def merged : Node → Except Refusal Node
  | .scalar tag mark text => .ok (.scalar tag mark text)
  | .sequence tag mark items => do return .sequence tag mark (← mergedAll items)
  | .mapping tag mark entries => do
    return .mapping tag mark (← mergeEntries mark (← mergedPairs entries))

/-- Trees whose merges are carried out. -/
def mergedAll : List Node → Except Refusal (List Node)
  | [] => .ok []
  | n :: rest => do return (← n.merged) :: (← mergedAll rest)

/-- Entries whose merges are carried out. -/
def mergedPairs : List (Node × Node) → Except Refusal (List (Node × Node))
  | [] => .ok []
  | (key, value) :: rest => do return (← key.merged, ← value.merged) :: (← mergedPairs rest)

end

/-! ## Scalars -/

/-- A value that a spelling must have. -/
def spelt {α : Type} (value : Option α) : Except Refusal α :=
  match value with
  | some a => .ok a
  | none => .error (.fault .badValue)

/-- The moment of a spelling; all its parts must be in their ranges. -/
def moment (text : String) : Except Refusal Value :=
  match Scalar.momentParts? text with
  | none => .error (.fault .lacksPart)
  | some (m, _) =>
    if Scalar.isPossible m then .ok (.atom (.moment m)) else .error (.fault .badValue)

/-- The value of a scalar by the name of its tag in the core schema, if the name is one of a
scalar. -/
def scalarValue? (name text : String) (mark : Mark) : Option (Except Refusal Value) :=
  match name with
  | "null" => some (.ok .null)
  | "bool" => some <|
    match Scalar.booleans.lookup (text.map Char.toLower) with
    | some b => .ok (.bool b)
    | none => .error (.fault .lacksKey)
  | "int" => some ((spelt (Scalar.int? text)).map Value.int)
  | "float" => some ((spelt (Scalar.float? text)).map Value.float)
  | "timestamp" => some (moment text)
  | "binary" => some <|
    match Base64.decode? text with
    | some bytes => .ok (.atom (.bytes bytes))
    | none => refuse none "failed to decode base64 data: Incorrect padding" mark
  | "str" => some (.ok (.str text))
  | _ => none

/-! ## Trees -/

/-- The name of a tag in the core schema. -/
def coreName? (tag : String) : Option String :=
  let start := (Tag.core "").toList
  if start.isPrefixOf tag.toList then some (String.ofList (tag.toList.drop start.length)) else none

/-- The names of core tags of each kind of node. -/
def scalarNames : List String := ["null", "bool", "int", "float", "timestamp", "binary", "str"]
def sequenceNames : List String := ["seq", "omap", "pairs"]
def mappingNames : List String := ["map", "set"]

/-- Why a node of a core tag has no value: the tag is unknown, or stands at another kind of node. -/
def misplaced {α : Type} (n : Node) : Except Refusal α :=
  let expected := match coreName? n.tag with
    | some name =>
      if scalarNames.contains name then some "scalar"
      else if sequenceNames.contains name then some "sequence"
      else if mappingNames.contains name then some "mapping"
      else none
    | none => none
  match expected with
  | some kind =>
    refuse none ("expected a " ++ kind ++ " node, but found " ++ n.kindName) n.mark
  | none =>
    refuse none ("could not determine a constructor for the tag " ++ Text.inspect n.tag) n.mark

/-- The key of an entry, which has no parts. -/
def keyOf (outer : Mark) (key : Node) (value : Value) : Except Refusal Atom :=
  match value with
  | .atom a => .ok a
  | _ => refuse (some ("while constructing a mapping", outer)) "found unhashable key" key.mark

mutual

/-- The value of a tree. -/
def value : Node → Except Refusal Value
  | .scalar tag mark text =>
    match (coreName? tag).bind fun name => scalarValue? name text mark with
    | some v => v
    | none => misplaced (.scalar tag mark text)
  | .sequence tag mark items =>
    if sequenceNames.any fun name => tag == Tag.core name then do return .list (← values items)
    else misplaced (.sequence tag mark items)
  | .mapping tag mark entries =>
    if mappingNames.any fun name => tag == Tag.core name then do
      return .map (Mapping.ofEntries (← pairs mark entries))
    else misplaced (.mapping tag mark entries)

/-- The values of trees. -/
def values : List Node → Except Refusal (List Value)
  | [] => .ok []
  | n :: rest => do return (← n.value) :: (← values rest)

/-- The entries of a mapping. -/
def pairs (outer : Mark) : List (Node × Node) → Except Refusal (List (Atom × Value))
  | [] => .ok []
  | (key, v) :: rest => do
    let k ← keyOf outer key (← key.value)
    return (k, ← v.value) :: (← pairs outer rest)

end

end Node

/-- The value that a text spells; an empty text spells null. -/
def read (text : String) : Except Refusal Value := do
  match ← Node.read? text.toList with
  | some n => (← n.merged).value
  | none => return .null

/-- The text of a refusal; a fault has none. -/
def Refusal.message (text : String) : Refusal → String
  | .character c position =>
    "unacceptable character #x" ++ String.ofList (Text.hex 4 c.toNat)
      ++ ": special characters are not allowed\n  in \"<unicode string>\", position "
      ++ toString position
  | .problem p => p.message text.toList
  | .fault _ => ""

end SchemaForge.Yaml
