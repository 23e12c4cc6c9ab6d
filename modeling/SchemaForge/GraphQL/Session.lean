import SchemaForge.GraphQL.Lowering
import SchemaForge.Scalar.Expression
import SchemaForge.Schema.Entry

/-!
# Compiling operations

Enums and input objects of the type system become entries, then fragments and operations, and last
the types that these have reached, which may reach further ones. What has been named, noticed and
reached stays: documents can be compiled again, and then every entry is a duplicate.

* `Session.start`: a type system with documents and the code for its scalars.
* `Session.run`: the session after everything has its entry.
* `Session.result`: the entries of a session in their order.
-/

namespace SchemaForge.GraphQL

/-- A type system with documents, and what has been found in them so far. -/
structure Session where
  system : TypeSystem
  scalars : Scalar.Registry
  documents : List Document
  /-- The fragments of the documents, of each name the first. -/
  fragments : List Fragment := []
  entries : List Entry := []
  notes : List Note := []
  /-- The names of types that need an entry, each once, in the order in which they were reached. -/
  reached : List String := []
  deriving Repr, Inhabited

namespace Session

/-- A session with nothing found yet. The code for scalars is checked if a library is named. -/
def start (system : TypeSystem) (documents : List Document) (scalars : List (String × String))
    (library : Option String) : Except Scalar.Error Session := do
  let scalars ← match library with
    | some name => if name == "" then .ok scalars else Scalar.checkAll name scalars
    | none => .ok scalars
  return { system, documents, scalars := .ofOverrides scalars }

/-! ## What has been found -/

/-- Adds a note, unless it is there already. -/
def note (s : Session) (n : Note) : Session :=
  if s.notes.contains n then s else { s with notes := s.notes ++ [n] }

/-- Adds the name of a type that needs an entry, unless it is there already. -/
def reach (s : Session) (name : String) : Session :=
  if s.reached.contains name then s else { s with reached := s.reached ++ [name] }

/-- Takes in what a step has left behind. -/
def absorb (s : Session) (events : List Event) : Session :=
  events.foldl (fun s e => match e with
    | .note n => s.note n
    | .reach name => s.reach name) s

/-- Adds an entry, unless its name is taken; then that is noted. -/
def addEntry (s : Session) (name : String) (schema : Schema) (category : String) : Session :=
  if s.entries.any (·.name == name) then s.note (.duplicateEntry name category)
  else { s with entries := s.entries ++ [Entry.of name schema (some category)] }

/-- What lowering knows in a session. -/
def setting (s : Session) : Setting :=
  { system := s.system, scalars := s.scalars, fragments := s.fragments }

/-- Lowers something and adds its entry. -/
def addLowered (s : Session) (name category : String) (lowered : Lower Schema) :
    Except Fault Session := do
  let s := s.absorb lowered.log
  return s.addEntry name (← lowered.outcome) category

/-! ## The parts of a compilation -/

/-- Finds the fragments of all documents. -/
def findFragments (s : Session) : Session :=
  (s.documents.flatMap Document.fragments).foldl (fun s f =>
    if s.fragments.any (·.name == f.name) then s.note (.repeatedFragment f.name)
    else { s with fragments := s.fragments ++ [f] }) s

/-- Adds the entry of an enum; other types have none at first. -/
def addEnum (s : Session) (t : NamedType) : Session :=
  match t.shape with
  | .enum values => s.addEntry t.name (.enum (values.map Value.str) t.description) "enum"
  | _ => s

/-- Adds the entry of an input object. -/
def addInput (s : Session) (t : NamedType) : Except Fault Session :=
  if t.kind == .inputObject then
    s.addLowered t.name "input" (Lowering.inputObject s.setting t)
  else .ok s

/-- Adds the entry of a fragment, if its type exists. -/
def addFragment (s : Session) (f : Fragment) : Except Fault Session :=
  match s.system.find? f.condition with
  | none => .ok (s.note (.fragmentOnUnknownType f.name f.condition))
  | some t =>
    s.addLowered (Name.fragmentType f.name) "fragment"
      (Lowering.selection s.setting (.fragment f.name) [f.name] t f.selections)

/-- Adds the entries of an operation: its variables if it has any, and its response. -/
def addOperation (s : Session) (op : Operation) : Except Fault Session :=
  match op.name with
  | none => .ok (s.note (.anonymousOperation op.kind))
  | some name =>
    match s.system.root? op.kind with
    | none => .ok (s.note (.noRootType op.kind name))
    | some root => do
      let place := Place.operation op.kind name
      let s ←
        if op.inputs.isEmpty then .ok s
        else
          s.addLowered (Name.variablesType op.kind name) "variables"
            (Lowering.inputs s.setting place op.inputs)
      s.addLowered (Name.responseType op.kind name) "response"
        (Lowering.selection s.setting place [] root op.selections)

/-- Adds the entry of a type that was reached. -/
def addComponent (s : Session) (name : String) : Except Fault Session :=
  match s.system.find? name with
  | none => .ok s
  | some t => s.addLowered name "component" (Lowering.component s.setting t)

/-- Adds the entries of the types that were reached, from the given place on; further ones may be
reached meanwhile. Each of these is named by a type of the system and is reached once, which bounds
the number of steps. -/
def addComponents : Nat → Nat → Session → Except Fault Session
  | 0, _, s => .ok s
  | steps + 1, place, s =>
    match s.reached[place]? with
    | none => .ok s
    | some name => do addComponents steps (place + 1) (← s.addComponent name)

/-- Compiles the documents of a session. -/
def run (s : Session) : Except Fault Session := do
  let s := s.findFragments
  let types := s.system.types.filter (!·.isReserved)
  let s := types.foldl addEnum s
  let s ← types.foldlM addInput s
  let s ← s.fragments.foldlM addFragment s
  let s ← (s.documents.flatMap Document.operations).foldlM addOperation s
  addComponents ((s.system.types.flatMap NamedType.typeNames).length + s.reached.length + 1) 0 s

/-- The notes of a session as texts. -/
def warnings (s : Session) : List String := s.notes.map Note.message

/-- The entries of a session in their order, and its notes. -/
def result (s : Session) : Result := { entries := Entry.sort s.entries, warnings := s.warnings }

end Session

end SchemaForge.GraphQL
