import SchemaForge.Logged
import SchemaForge.Text.Basic
import SchemaForge.Value.Text

/-!
# References

A reference is a text `#/a/b` that leads from the root of the document through keys and indices. A
slash in a key is written `~1` and a tilde `~0`.

* `Pointer.tokens`: the keys and indices that a reference names.
* `Pointer.follow`: the value that a reference leads to.
* `Pointer.resolve`: the value at the end of a chain of references, of at most 32.
-/

namespace SchemaForge.OpenApi

/-- Why a reference has no value. -/
inductive ReferenceError where
  | unsupported (ref : Value)
  | circular (ref : String)
  | missing (ref : String)
  | unknownComponent (key : String)
  deriving Repr, Inhabited

/-- The text of a reference error. -/
def ReferenceError.message : ReferenceError → String
  | .unsupported ref => "unsupported reference \"" ++ ref.display ++ "\""
  | .circular ref => "reference \"" ++ ref ++ "\" is circular"
  | .missing ref => "cannot resolve reference \"" ++ ref ++ "\""
  | .unknownComponent key => "unknown component schema \"" ++ key ++ "\""

/-- What ends a step on a document: a value of the wrong shape, or a reference without a value. -/
inductive Stop where
  | fault (f : Fault)
  | unresolved (e : ReferenceError)
  deriving Repr, Inhabited

/-- A step whose only way to stop is a fault. -/
def orStop {α : Type} (x : Except Fault α) : Except Stop α := x.mapError .fault

namespace Pointer

/-- Undoes the escapes of a key. -/
def unescape : List Char → List Char
  | '~' :: '1' :: rest => '/' :: unescape rest
  | '~' :: '0' :: rest => '~' :: unescape rest
  | c :: rest => c :: unescape rest
  | [] => []

/-- The most digits that an index may have. -/
def maxIndexDigits : Nat := 4300

/-- The index that a token of digits names. -/
def index (token : List Char) : Except Fault Nat :=
  if maxIndexDigits < token.length then .error .badValue
  else
    match Text.readDecimal? token with
    | some n => .ok n
    | none => .error .badValue

/-- The value that a token leads to: by key in a mapping, by index in a list. -/
def step (target : Value) (token : List Char) : Except Fault (Option Value) :=
  match target with
  | .map entries => .ok (Mapping.get? entries (String.ofList token))
  | .list items =>
    if !token.isEmpty && token.all Text.isDigit then (index token).map (items[·]?) else .ok none
  | .atom _ => .ok none

/-- The value that a list of tokens leads to. -/
def walk (target : Value) : List (List Char) → Except Fault (Option Value)
  | [] => .ok (some target)
  | token :: rest =>
    match step target token with
    | .error f => .error f
    | .ok none => .ok none
    | .ok (some next) => walk next rest

/-- The text after the mark that every reference into the document begins with. -/
def local? (ref : String) : Option (List Char) :=
  match ref.toList with
  | '#' :: '/' :: rest => some rest
  | _ => none

/-- The tokens of the text after the mark. -/
def tokens (path : List Char) : List (List Char) := (Text.split '/' path).map unescape

/-- The value that a reference leads to. -/
def follow (document : Value) (ref : String) (path : List Char) : Except Stop Value :=
  match walk document (tokens path) with
  | .error f => .error (.fault f)
  | .ok none => .error (.unresolved (.missing ref))
  | .ok (some v) => .ok v

/-- The reference that a node consists in, if it is one. -/
def refOf? : Value → Option Value
  | .map entries => Mapping.get? entries "$ref"
  | _ => none

/-- Follows references from a node, at most so many of them, until there is a value that is none. -/
def resolveWithin (document : Value) : Nat → Value → Except Stop Value
  | hops, node =>
    match refOf? node with
    | none => .ok node
    | some (.str ref) =>
      match local? ref with
      | none => .error (.unresolved (.unsupported (.str ref)))
      | some path =>
        match hops with
        | 0 => .error (.unresolved (.circular ref))
        | hops + 1 =>
          match follow document ref path with
          | .error stop => .error stop
          | .ok next => resolveWithin document hops next
    | some ref => .error (.unresolved (.unsupported ref))

/-- The most references in a chain. -/
def maxHops : Nat := 32

/-- The value at the end of the chain of references that begins at a node. -/
def resolve (document : Value) (node : Value) : Except Stop Value :=
  resolveWithin document maxHops node

end Pointer

end SchemaForge.OpenApi
