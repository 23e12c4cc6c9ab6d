import SchemaForge.Value.Basic

/-!
# Values that are checked in full

A check does not stop at the first thing that is wrong. It ends with a value, or with all issues in
the order in which they were met, each with the way to the part that it concerns.

* `Checked`: the outcome of a check; `<*>` joins the issues of both sides.
* `Checked.under`: the issues of a part, seen from the whole.
* `Checked.andThen`: a check that is made only where nothing else is wrong.
-/

namespace SchemaForge.Config

/-- A step from a value to one of its parts. -/
inductive Step where
  | key (name : Atom)
  | index (n : Nat)
  /-- The key of an entry and not its value. -/
  | keyItself
  deriving DecidableEq, Repr, Inhabited

/-- A rule for values whose parts are all in order. -/
inductive Rule where
  | sourceName
  | knownLibrary (name : String)
  | oneLocation
  | someSource
  | distinctSources (name : String)
  deriving DecidableEq, Repr, Inhabited

/-- What can be wrong with a value. -/
inductive Defect where
  | missing
  | unknownKey
  | keyNotText
  | notText
  | notList
  | notMapping
  | notTruth
  /-- The spelling of no truth value. -/
  | unclearTruth
  | notLocation
  | notSource
  | kindMissing
  | kindUnknown
  | broken (rule : Rule)
  deriving DecidableEq, Repr, Inhabited

/-- Something that is wrong, and the way to it. -/
structure Issue where
  path : List Step
  defect : Defect
  deriving DecidableEq, Repr, Inhabited

/-- The outcome of a check. -/
inductive Checked (α : Type) where
  | sound (value : α)
  | faulty (issues : List Issue)
  deriving Repr, Inhabited

namespace Checked

variable {α β : Type}

/-- A function of a checked value. -/
def map (f : α → β) : Checked α → Checked β
  | sound a => sound (f a)
  | faulty issues => faulty issues

/-- A checked function of a checked value, with the issues of both. -/
def join (f : Checked (α → β)) (a : Checked α) : Checked β :=
  match f, a with
  | sound f, sound a => sound (f a)
  | faulty issues, sound _ => faulty issues
  | sound _, faulty issues => faulty issues
  | faulty issues, faulty more => faulty (issues ++ more)

instance : Applicative Checked where
  pure := sound
  map := map
  seq f a := join f (a ())

/-- A single issue with the value itself. -/
def fail (defect : Defect) : Checked α := faulty [{ path := [], defect }]

/-- The check of a part. -/
def under (step : Step) : Checked α → Checked α
  | sound a => sound a
  | faulty issues => faulty (issues.map fun issue => { issue with path := step :: issue.path })

/-- A check that is made only where nothing else is wrong. -/
def andThen (a : Checked α) (f : α → Checked β) : Checked β :=
  match a with
  | sound a => f a
  | faulty issues => faulty issues

/-- Several checks, with the issues of all. -/
def all : List (Checked α) → Checked (List α)
  | [] => sound []
  | a :: rest => List.cons <$> a <*> all rest

end Checked

end SchemaForge.Config
