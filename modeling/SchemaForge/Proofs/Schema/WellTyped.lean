import SchemaForge.Name
import SchemaForge.Schema.Entry

/-!
# Well-typed schemas

The values in a schema are of the kinds that its places ask for: texts, numbers, or nothing.

* `Value.isScalar`: a text, a number or a boolean.
* `Schema.WellTyped`: schemas without code of their own, whose values are of the right kinds.
-/

namespace SchemaForge

namespace Value

/-- Whether a value is a number. -/
def isNumber : Value → Bool
  | .atom (.int _) | .atom (.float _) => true
  | _ => false

/-- Whether a value is a text, a number or a boolean. -/
def isScalar : Value → Bool
  | .atom (.str _) | .atom (.bool _) => true
  | v => v.isNumber

/-- Whether a value is a text or is absent. -/
def isTextOrNull : Value → Bool
  | .atom (.str _) | .atom .null => true
  | _ => false

/-- Whether a value is a number or is absent. -/
def isNumberOrNull (v : Value) : Bool := v.isNull || v.isNumber

end Value

/-- A schema without code of its own: descriptions and patterns are texts, lengths and bounds are
numbers, listed values are scalars, keys are texts, and references are by identifiers. -/
inductive Schema.WellTyped : Schema → Prop
  | primitive {kind : Primitive} {d : Value} : d.isTextOrNull → WellTyped (.primitive kind d)
  | string {format : Option String} {least most pattern d : Value} :
    least.isNumberOrNull → most.isNumberOrNull → pattern.isTextOrNull → d.isTextOrNull →
    WellTyped (.string format least most pattern d)
  | number {integer : Bool} {least most d : Value} :
    least.isNumberOrNull → most.isNumberOrNull → d.isTextOrNull →
    WellTyped (.number integer least most d)
  | object {properties : List (Atom × Property Schema)} {extra : Extra Schema} {d : Value} :
    (∀ entry ∈ properties, ∃ key, entry.1 = .str key) →
    (∀ entry ∈ properties, entry.2.description.isTextOrNull) →
    (∀ entry ∈ properties, WellTyped entry.2.schema) →
    (∀ s, extra = .typed s → WellTyped s) → d.isTextOrNull →
    WellTyped (.object properties extra d)
  | array {items : Schema} {d : Value} : WellTyped items → d.isTextOrNull →
    WellTyped (.array items d)
  | tuple {items : List Schema} {d : Value} : (∀ s ∈ items, WellTyped s) → d.isTextOrNull →
    WellTyped (.tuple items d)
  | record {key value : Schema} {d : Value} : WellTyped key → WellTyped value → d.isTextOrNull →
    WellTyped (.record key value d)
  | enum {values : List Value} {d : Value} : (∀ v ∈ values, v.isScalar) → d.isTextOrNull →
    WellTyped (.enum values d)
  | literal {value d : Value} : value.isScalar → d.isTextOrNull → WellTyped (.literal value d)
  | union {members : List Schema} {d : Value} : (∀ s ∈ members, WellTyped s) → d.isTextOrNull →
    WellTyped (.union members d)
  | intersection {members : List Schema} {d : Value} : (∀ s ∈ members, WellTyped s) →
    d.isTextOrNull → WellTyped (.intersection members d)
  | ref {name : String} {d : Value} : Name.isIdentifier name → d.isTextOrNull →
    WellTyped (.ref name d)

/-- An entry of a well-typed schema under an identifier. -/
structure Entry.WellTyped (e : Entry) : Prop where
  name : Name.isIdentifier e.name
  schema : e.schema.WellTyped

theorem Schema.WellTyped.description {s : Schema} (h : s.WellTyped) :
    s.description.isTextOrNull := by
  cases h <;> assumption

end SchemaForge
