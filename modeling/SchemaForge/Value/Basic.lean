import SchemaForge.Number.Double

/-!
# Document values

The data of a document: null, booleans, exact integers, doubles, texts, dates, lists, and mappings
that keep the order of their keys. A key is an atom.

* `Atom.sameKey`: when two atoms are the same key: numbers by value, `true` being `1`.
* `Mapping.get?`, `Mapping.insert`: a key keeps its first place and takes the last value.
* `Value.size`: how many values a value holds, itself included.
-/

namespace SchemaForge

/-- A calendar day, and the time of day when there is one. -/
structure Moment where
  year : Nat
  month : Nat
  day : Nat
  /-- Hour, minute, second and microsecond. -/
  time : Option (Nat × Nat × Nat × Nat)
  /-- The distance from universal time in minutes. -/
  offset : Option Int
  deriving DecidableEq, Repr, Inhabited

/-- A value without parts. -/
inductive Atom where
  | null
  | bool (b : Bool)
  | int (n : Int)
  | float (d : Double)
  | str (s : String)
  | moment (m : Moment)
  | bytes (b : List UInt8)
  deriving DecidableEq, Repr, Inhabited

namespace Atom

/-- One representative of all atoms that are the same key. -/
def keyForm : Atom → Atom
  | .bool b => .int (if b then 1 else 0)
  | .float d =>
    match d.toInt? with
    | some n => .int n
    | none => .float d
  | a => a

/-- Two atoms are the same key when they are equal as numbers or equal in every respect. -/
def sameKey (a b : Atom) : Bool := a.keyForm == b.keyForm

end Atom

/-- The data of a document. -/
inductive Value where
  | atom (a : Atom)
  | list (items : List Value)
  | map (entries : List (Atom × Value))
  deriving Repr, Inhabited

/-- The entries of a mapping, in order. -/
abbrev Mapping := List (Atom × Value)

namespace Value

@[match_pattern] abbrev null : Value := .atom .null
@[match_pattern] abbrev bool (b : Bool) : Value := .atom (.bool b)
@[match_pattern] abbrev int (n : Int) : Value := .atom (.int n)
@[match_pattern] abbrev float (d : Double) : Value := .atom (.float d)
@[match_pattern] abbrev str (s : String) : Value := .atom (.str s)

mutual

/-- How many values a value holds, itself included. -/
def size : Value → Nat
  | .atom _ => 1
  | .list items => 1 + sizeItems items
  | .map entries => 1 + sizeEntries entries

/-- The values in a list. -/
def sizeItems : List Value → Nat
  | [] => 0
  | v :: rest => v.size + sizeItems rest

/-- The values in a list of entries. -/
def sizeEntries : List (Atom × Value) → Nat
  | [] => 0
  | (_, v) :: rest => v.size + sizeEntries rest

end

/-- Whether a value counts as given: null, false, zero, and what is empty do not. -/
def isGiven : Value → Bool
  | .atom .null => false
  | .atom (.bool b) => b
  | .atom (.int n) => n != 0
  | .atom (.float d) => d.toInt? != some 0
  | .atom (.str s) => s != ""
  | .atom (.moment _) => true
  | .atom (.bytes b) => !b.isEmpty
  | .list items => !items.isEmpty
  | .map entries => !entries.isEmpty

/-- Whether a value is null. -/
def isNull : Value → Bool
  | .atom .null => true
  | _ => false

end Value

namespace Mapping

/-- The value of a key. -/
def find? (m : Mapping) (key : Atom) : Option Value :=
  (List.find? (fun entry => entry.1.sameKey key) m).map (·.2)

/-- The value of a text key. -/
def get? (m : Mapping) (key : String) : Option Value := m.find? (.str key)

/-- The value of a text key, null when the key is missing. -/
def getD (m : Mapping) (key : String) : Value := (m.get? key).getD .null

/-- Whether a text is a key. -/
def has (m : Mapping) (key : String) : Bool := (m.get? key).isSome

/-- Sets the value of a key: in place when the key is there, at the end otherwise. -/
def insert (m : Mapping) (key : Atom) (value : Value) : Mapping :=
  match m with
  | [] => [(key, value)]
  | entry :: rest =>
    if entry.1.sameKey key then (entry.1, value) :: rest else entry :: insert rest key value

/-- The mapping that a list of entries, read in order, builds. -/
def ofEntries (entries : List (Atom × Value)) : Mapping :=
  entries.foldl (fun m entry => m.insert entry.1 entry.2) []

end Mapping

end SchemaForge
