import SchemaForge.GraphQL.MetaTypes
import SchemaForge.GraphQL.Reader
import SchemaForge.Logged
import SchemaForge.Text.Basic
import SchemaForge.Value.Text

/-!
# The type system in an introspection result

A server describes its type system as a document value. The names, values and directives of the
description are read first. Then each type's parts must have types of the kinds that they need.

* `TypeSystem.ofIntrospection`: the type system of a result, with or without its `data` envelope.
-/

namespace SchemaForge.GraphQL

namespace Introspection

/-- Why a result describes no type system. -/
inductive Refusal where
  | noSchema
  | invalid
  | fault (f : Fault)
  deriving DecidableEq, Repr, Inhabited

/-- A step that may find the result wanting. -/
abbrev Check (α : Type) : Type := Except Refusal α

/-! ## Values -/

/-- The value of a key that must be there. -/
def required (v : Value) (key : String) : Check Value :=
  match v with
  | .map entries =>
    match Mapping.get? entries key with
    | some v => .ok v
    | none => .error (.fault .lacksKey)
  | _ => .error .invalid

/-- The value of a key, null when the key is missing. -/
def optional (v : Value) (key : String) : Check Value :=
  match v with
  | .map entries => .ok (Mapping.getD entries key)
  | _ => .error (.fault .lacksPart)

/-- The items of a list, the keys of a mapping, the characters of a text. -/
def itemsOf : Value → Check (List Value)
  | .list items => .ok items
  | .map entries => .ok (entries.map fun entry => .atom entry.1)
  | .atom (.str s) => .ok (s.toList.map fun c => .str (String.singleton c))
  | .atom _ => .error .invalid

/-- The items under a key, which must be given. -/
def itemsAt (v : Value) (key : String) : Check (List Value) := do
  let items ← optional v key
  if items.isNull then .error .invalid else itemsOf items

/-- A text that is a name. -/
def nameOf : Value → Check String
  | .atom (.str s) => if isName s then .ok s else .error .invalid
  | _ => .error .invalid

/-- The text under a key, if there is one. -/
def textAt (v : Value) (key : String) : Check (Option String) := do
  match ← optional v key with
  | .atom (.str s) => return some s
  | _ => return none

/-- The list in which of the items of one name only the last is kept, at the place of the first. -/
def keepLast {α : Type} (nameOf : α → String) (items : List α) : List α :=
  (items.map nameOf).eraseDups.filterMap fun name => items.reverse.find? (nameOf · == name)

/-! ## Type references -/

/-- The type that a reference writes. A reference that is not null must not be in another. -/
def typeRef : Nat → Value → Check TypeRef
  | 0, _ => .error .invalid
  | depth + 1, v => do
    let kind ← textAt v "kind"
    if kind == some "LIST" then
      let inner ← optional v "ofType"
      if inner.isGiven then return .list (← typeRef depth inner) else .error .invalid
    else if kind == some "NON_NULL" then
      let inner ← optional v "ofType"
      if inner.isGiven then
        match ← typeRef depth inner with
        | .nonNull _ => .error .invalid
        | t => return .nonNull t
      else .error .invalid
    else
      match ← optional v "name" with
      | .atom (.str s) => if s == "" then .error .invalid else return .named s
      | _ => .error .invalid

/-- The type that a reference writes, its names being among those known. -/
def knownRef (known : List String) (v : Value) : Check TypeRef := do
  let t ← typeRef v.size v
  if known.contains t.name then return t else .error .invalid

/-! ## Parts of types -/

/-- An argument or an input field. Its default is the text of a value. -/
def input (known : List String) (v : Value) : Check Input := do
  let name ← required v "name"
  let type ← knownRef known (← required v "type")
  let default ← optional v "defaultValue"
  match default with
  | .atom .null => pure ()
  | .atom (.str s) => if (Literal.read? s).isSome then pure () else .error .invalid
  | _ => .error .invalid
  return { name := ← nameOf name, type, description := ← optional v "description" }

/-- A field. -/
def field (known : List String) (v : Value) : Check Field := do
  let name ← required v "name"
  let type ← knownRef known (← required v "type")
  let arguments ← (← itemsAt v "args").mapM (input known)
  return { name := ← nameOf name, type, arguments := keepLast Input.name arguments
           description := ← optional v "description" }

/-- The name of a type that a reference names without wrappers. -/
def typeName (v : Value) : Check String := do
  match ← optional v "name" with
  | .atom (.str s) => return s
  | _ => .error .invalid

/-- The interfaces of a type; an interface may leave them out. -/
def interfaces (v : Value) (mayLack : Bool) : Check (List String) := do
  let items ← optional v "interfaces"
  if items.isNull then if mayLack then return [] else .error .invalid
  else (← itemsOf items).mapM typeName

/-- The fields of a type. -/
def fields (known : List String) (v : Value) : Check (List Field) := do
  return keepLast Field.name (← (← itemsAt v "fields").mapM (field known))

/-- A value of an enum, which is not the name of a boolean or null. -/
def enumValue (v : Value) : Check String := do
  match ← required v "name" with
  | .atom (.str s) =>
    if isName s && s != "true" && s != "false" && s != "null" then return s else .error .invalid
  | _ => .error .invalid

/-! ## Types -/

/-- The kinds of types, by their names. -/
def kinds : List (String × TypeKind) := [
  ("SCALAR", .scalar), ("OBJECT", .object), ("INTERFACE", .interface), ("UNION", .union),
  ("ENUM", .enum), ("INPUT_OBJECT", .inputObject)]

/-- The types that need no definition, by name. -/
def isStandard (name : String) : Bool := (standardType? name).isSome

/-- What is read of a type first: its name, its kind, the values of an enum, and that the parts of
an union or an input object are given. Interfaces, unions and input objects must not have the name
of a standard type. The names of the enum values are all read before any is checked. -/
def outline (v : Value) : Check (String × TypeKind × List String) := do
  let name ← required v "name"
  match ← optional v "kind" with
  | .atom (.str kind) =>
    match kinds.lookup kind with
    | none => .error .invalid
    | some kind =>
      let standard := match name with
        | .atom (.str s) => isStandard s
        | _ => false
      match kind with
      | .scalar | .object =>
        let name ← if standard then pure name.display else nameOf name
        return (name, kind, [])
      | .interface => if standard then .error .invalid else return (← nameOf name, kind, [])
      | .union =>
        let members ← optional v "possibleTypes"
        if members.isNull || standard then .error .invalid else return (← nameOf name, kind, [])
      | .inputObject =>
        let inputs ← optional v "inputFields"
        if inputs.isNull || standard then .error .invalid else return (← nameOf name, kind, [])
      | .enum =>
        let items ← optional v "enumValues"
        if items.isNull then .error .invalid
        else if standard then return (name.display, kind, [])
        else
          let items ← itemsOf items
          for item in items do
            let _ ← required item "name"
          let values ← items.mapM enumValue
          return (← nameOf name, kind, values.eraseDups)
  | _ => .error .invalid

/-- The outlines of types, and of each the value that it is read from. -/
def outlines (v : Value) : Check (List (String × TypeKind × List String × Value)) := do
  let items ← itemsOf (← required v "types")
  let read ← items.mapM fun item => do
    let (name, kind, values) ← outline item
    return (name, kind, values, item)
  return keepLast (·.1) read

/-- The type of an outline, its parts read from the value. -/
def typeOf (known : List String) (name : String) (kind : TypeKind) (values : List String)
    (v : Value) : Check NamedType := do
  match standardType? name with
  | some t => return t
  | none =>
    let shape ← match kind with
      | .scalar => pure Shape.scalar
      | .object => do
        let fields ← fields known v
        pure (Shape.object (← interfaces v false) fields)
      | .interface => do
        let fields ← fields known v
        pure (Shape.interface (← interfaces v true) fields)
      | .union => do pure (Shape.union (← (← itemsAt v "possibleTypes").mapM typeName))
      | .enum => pure (Shape.enum values)
      | .inputObject => do
        let inputs ← (← itemsAt v "inputFields").mapM (input known)
        pure (Shape.inputObject (keepLast Input.name inputs))
    return { name, description := ← optional v "description", shape }

/-! ## What the parts of types must be -/

/-- Whether values of a kind can be given. -/
def isInputKind (kind : TypeKind) : Bool := kind == .scalar || kind == .enum || kind == .inputObject

/-- Whether all parts of a type have types of the kinds that they need: an interface is one, a
member is an object, a field has no input object, and an argument has no object. -/
def isSound (s : TypeSystem) (t : NamedType) : Bool :=
  let kindIs (name : String) (accepts : TypeKind → Bool) : Bool :=
    match s.find? name with
    | some t => accepts t.kind
    | none => false
  let isInput (i : Input) : Bool := kindIs i.type.name isInputKind
  match t.shape with
  | .object interfaces fields | .interface interfaces fields =>
    interfaces.all (kindIs · (· == .interface))
    && fields.all fun f => kindIs f.type.name (· != .inputObject) && f.arguments.all isInput
  | .union members => members.all (kindIs · (· == .object))
  | .inputObject fields => fields.all isInput
  | .scalar | .enum _ => true

/-- The root type under a key, if there is one; it must be an object. -/
def root (kinds : List (String × TypeKind)) (v : Value) (key : String) : Check (Option String) := do
  let r ← optional v key
  if !r.isGiven then return none
  else
    match ← optional r "name" with
    | .atom (.str s) => if kinds.lookup s == some .object then return some s else .error .invalid
    | _ => .error .invalid

/-- The type that an argument of a directive names. -/
def directiveInput (kinds : List (String × TypeKind)) (v : Value) : Check String := do
  let i ← input (kinds.map (·.1)) v
  if (kinds.lookup i.type.name).any isInputKind then return i.type.name else .error .invalid

/-- The types that the arguments of a directive name. -/
def directiveTypes (kinds : List (String × TypeKind)) (v : Value) : Check (List String) := do
  let arguments ← optional v "args"
  let locations ← optional v "locations"
  if arguments.isNull || locations.isNull then .error .invalid
  else
    let name ← required v "name"
    let locations ← itemsOf locations
    let types ← (← itemsOf arguments).mapM (directiveInput kinds)
    let _ ← nameOf name
    let places := locations.all fun l => match l with
      | .atom (.str s) => Reading.locations.contains s
      | _ => false
    if places then return types else .error .invalid

/-- Failures of any kind in the parts of types make the result invalid. -/
def withoutFaults {α : Type} (x : Check α) : Check α := x.mapError fun _ => .invalid

/-- The type system of the value under `__schema`. -/
def typeSystem (v : Value) : Check TypeSystem := do
  match v with
  | .map _ => pure ()
  | _ => .error .invalid
  let outlines ← outlines v
  let known := outlines.map (·.1)
  let kinds := outlines.map fun (name, kind, _) =>
    (name, ((standardType? name).map NamedType.kind).getD kind)
  let query ← root kinds v "queryType"
  let mutation ← root kinds v "mutationType"
  let subscription ← root kinds v "subscriptionType"
  let directives ← optional v "directives"
  let further ← if directives.isGiven then (← itemsOf directives).mapM (directiveTypes kinds)
    else pure []
  let types ← withoutFaults (outlines.mapM fun (name, kind, values, v) =>
    typeOf known name kind values v)
  let roots : Roots := [(Name.OperationKind.query, query), (.mutation, mutation),
    (.subscription, subscription)].filterMap fun (kind, name) => name.map (kind, ·)
  let system := TypeSystem.ofTypes types further.flatten roots
  if types.all (isSound system) then return system else .error .invalid

/-- Whether a text or a list holds a text, or a mapping has it as a key. -/
def mentions (v : Value) (s : String) : Check Bool :=
  match v with
  | .map entries => .ok (Mapping.has entries s)
  | .list items => .ok (items.any fun v => match v with
    | .atom (.str t) => t == s
    | _ => false)
  | .atom (.str t) => .ok (Text.occursIn s.toList t.toList)
  | .atom _ => .error (.fault .wrongType)

/-- The value without its envelope, if it has one. -/
def unwrapped (v : Value) : Check Value := do
  if ← mentions v "data" then
    match v with
    | .map entries =>
      match Mapping.getD entries "data" with
      | .map inner => return .map inner
      | _ => return v
    | _ => .error (.fault .wrongType)
  else return v

end Introspection

/-- The type system of an introspection result, with or without its envelope. -/
def TypeSystem.ofIntrospection (v : Value) : Except Introspection.Refusal TypeSystem := do
  let v ← Introspection.unwrapped v
  if ← Introspection.mentions v "__schema" then
    match v with
    | .map entries => Introspection.typeSystem (Mapping.getD entries "__schema")
    | _ => .error .invalid
  else .error .noSchema

end SchemaForge.GraphQL
