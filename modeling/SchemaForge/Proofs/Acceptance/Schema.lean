import Mathlib.Data.List.Forall2
import SchemaForge.Proofs.Acceptance.Datum
import SchemaForge.Schema.Basic
import SchemaForge.Value.Text

/-!
# What a schema accepts

Schemas are read as sets of data: a union is an or, an intersection an and, and an object without a
word on further keys lets them be there.

* `Meaning`: what a schema leaves to others: named schemas, code, formats, patterns.
* `Schema.Admits`: what a schema accepts, given what its parts accept.
* `Accepts`: the least relation that `Admits` describes; `accepts_iff` is its equation.
* `accepts_toSchema`, `toProperty_admits`: a schema with its absence accepts the same where it
  becomes a schema and where it becomes a property.
-/

namespace SchemaForge

/-- What a schema leaves to others. -/
structure Meaning where
  named : String → Option Schema
  code : String → Datum → Prop
  format : String → String → Prop
  pattern : Value → String → Prop

/-- What a schema without parts accepts. No JSON value is undefined, a day or a bigint. -/
def Primitive.Admits : Primitive → Datum → Prop
  | .boolean, d => ∃ b, d = .bool b
  | .null, d => d = .null
  | .unknown, _ => True
  | .bigint, _ | .undefined, _ | .never, _ | .date, _ => False

/-- Whether a number respects the bounds that are given. -/
def WithinBounds (least most : Value) (q : ℚ) : Prop :=
  (∀ b, least.rational? = some b → b ≤ q) ∧ ∀ b, most.rational? = some b → q ≤ b

/-- What a property accepts where its key is missing, or where there is a value. -/
def Property.Admits (A : Schema → Datum → Prop) (p : Property Schema) : Option Datum → Prop
  | none => p.required = false
  | some d => A p.schema d ∨ (p.required = false ∧ p.absence = .nullish ∧ d = .null)

/-- What an object accepts under a key that is none of its properties. -/
def Extra.Admits (A : Schema → Datum → Prop) : Extra Schema → Datum → Prop
  | .unset, _ | .allowed, _ => True
  | .rejected, _ => False
  | .typed s, d => A s d

/-- What a schema accepts, given what its parts and the named schemas accept. -/
def Schema.Admits (m : Meaning) (A : Schema → Datum → Prop) : Schema → Datum → Prop
  | .primitive kind _, d => kind.Admits d
  | .string format least most pattern _, d => ∃ s, d = .text s ∧ (∀ f ∈ format, m.format f s) ∧
      WithinBounds least most s.length ∧ (pattern.isNull ∨ m.pattern pattern s)
  | .number integer least most _, d => ∃ q, d = .number q ∧ (integer → q.isInt) ∧
      WithinBounds least most q
  | .object properties extra _, d => ∃ members, d = .object members ∧
      (∀ entry ∈ properties, entry.2.Admits A (members.lookup entry.1.display)) ∧
      ∀ member ∈ members, (∀ entry ∈ properties, entry.1.display ≠ member.1) →
        extra.Admits A member.2
  | .array items _, d => ∃ ds, d = .list ds ∧ ∀ x ∈ ds, A items x
  | .tuple items _, d => ∃ ds, d = .list ds ∧ List.Forall₂ A items ds
  | .record key value _, d => ∃ members, d = .object members ∧
      ∀ member ∈ members, A key (.text member.1) ∧ A value member.2
  | .enum values _, d => ∃ v ∈ values, Denotes v d
  | .literal value _, d => Denotes value d
  | .union members _, d => ∃ s ∈ members, A s d
  | .intersection members _, d => ∀ s ∈ members, A s d
  | .ref name _, d => ∃ s, m.named name = some s ∧ A s d
  | .raw code _, d => m.code code d
  | .foreign _, _ => True

/-- What a schema accepts: the least relation that holds of a schema as soon as the schema admits a
datum by what is accepted already. -/
inductive Accepts (m : Meaning) : Schema → Datum → Prop
  | of {s : Schema} {d : Datum} (A : Schema → Datum → Prop) :
    (∀ s d, A s d → Accepts m s d) → s.Admits m A d → Accepts m s d

variable {m : Meaning} {A B : Schema → Datum → Prop}

/-! ## The equation of acceptance -/

theorem Property.Admits.mono (h : ∀ s d, A s d → B s d) {p : Property Schema} {d : Option Datum}
    (hp : p.Admits A d) : p.Admits B d := by
  cases d with
  | none => exact hp
  | some d => exact hp.imp_left (h _ _)

theorem Extra.Admits.mono (h : ∀ s d, A s d → B s d) {e : Extra Schema} {d : Datum}
    (he : e.Admits A d) : e.Admits B d := by
  cases e with
  | unset | allowed | rejected => exact he
  | typed s => exact h _ _ he

theorem Schema.Admits.mono (h : ∀ s d, A s d → B s d) {s : Schema} {d : Datum}
    (hs : s.Admits m A d) : s.Admits m B d := by
  cases s with
  | primitive | string | number | enum | literal | raw | foreign => exact hs
  | object properties extra description =>
    obtain ⟨members, rfl, hp, he⟩ := hs
    exact ⟨members, rfl, fun e hm => (hp e hm).mono h, fun x hx hk => (he x hx hk).mono h⟩
  | array items description =>
    obtain ⟨ds, rfl, hi⟩ := hs
    exact ⟨ds, rfl, fun x hx => h _ _ (hi x hx)⟩
  | tuple items description =>
    obtain ⟨ds, rfl, hi⟩ := hs
    exact ⟨ds, rfl, hi.imp h⟩
  | record key value description =>
    obtain ⟨members, rfl, hv⟩ := hs
    exact ⟨members, rfl, fun x hx => (hv x hx).imp (h _ _) (h _ _)⟩
  | union members description =>
    obtain ⟨s, hm, ha⟩ := hs
    exact ⟨s, hm, h _ _ ha⟩
  | intersection members description => exact fun s hm => h _ _ (hs s hm)
  | ref name description =>
    obtain ⟨s, hn, ha⟩ := hs
    exact ⟨s, hn, h _ _ ha⟩

/-- **A schema accepts what it admits by what its parts accept.** -/
theorem accepts_iff {s : Schema} {d : Datum} : Accepts m s d ↔ s.Admits m (Accepts m) d := by
  constructor
  · rintro ⟨A, hA, h⟩
    exact h.mono hA
  · exact .of _ fun _ _ h => h

theorem accepts_unknown (d : Datum) : Accepts m .unknown d := accepts_iff.mpr trivial

theorem accepts_null {d : Datum} : Accepts m .null d ↔ d = .null := accepts_iff

theorem not_accepts_undefined {d : Datum} : ¬ Accepts m .undefined d := accepts_iff.mp

theorem accepts_text (s : String) : Accepts m (.text none) (.text s) := by
  refine accepts_iff.mpr ⟨s, rfl, by simp, ⟨?_, ?_⟩, .inl rfl⟩ <;> simp [Value.rational?]

theorem accepts_union {members : List Schema} {description : Value} {d : Datum} :
    Accepts m (.union members description) d ↔ ∃ s ∈ members, Accepts m s d := accepts_iff

theorem accepts_describe (v : Value) {s : Schema} {d : Datum} :
    Accepts m (s.describe v) d ↔ Accepts m s d := by
  rw [accepts_iff, accepts_iff]
  cases s <;> exact Iff.rfl

/-! ## Absence -/

theorem isNull_accepts {s : Schema} (h : s.isNull = true) : Accepts m s .null := by
  unfold Schema.isNull at h
  split at h
  · exact accepts_iff.mpr rfl
  · exact absurd h (by decide)

theorem accepts_nullable {s : Schema} {d : Datum} :
    Accepts m s.nullable d ↔ Accepts m s d ∨ d = .null := by
  have pair : Accepts m (.union [s, .null] .null) d ↔ Accepts m s d ∨ d = .null := by
    rw [accepts_union]
    simp [accepts_null]
  unfold Schema.nullable
  split
  · rename_i members description
    split
    · rename_i hany
      obtain ⟨x, hx, hn⟩ := List.any_eq_true.mp hany
      refine ⟨.inl, fun h => h.elim id ?_⟩
      rintro rfl
      exact accepts_union.mpr ⟨x, hx, isNull_accepts hn⟩
    · exact pair
  · exact pair

theorem accepts_nullish {s : Schema} {d : Datum} :
    Accepts m s.nullish d ↔ Accepts m s d ∨ d = .null := by
  rw [Schema.nullish, accepts_union]
  simp [accepts_null, not_accepts_undefined]

/-- Whether a schema with its absence lets a value be null. -/
def Modified.allowsNull (x : Modified) : Bool := x.isNullish || x.nullable

/-- **The schema of a schema with its absence.** -/
theorem accepts_toSchema {x : Modified} {d : Datum} :
    Accepts m x.toSchema d ↔ Accepts m x.schema d ∨ (x.allowsNull ∧ d = .null) := by
  unfold Modified.toSchema Modified.allowsNull
  cases hn : x.isNullish with
  | true => simp [accepts_nullish]
  | false =>
    cases hb : x.nullable with
    | true => simp [accepts_nullable]
    | false =>
      cases ho : x.optional with
      | true => simp [accepts_union, not_accepts_undefined]
      | false => simp

/-- **A property accepts the values that the schema of its value accepts.** -/
theorem toProperty_admits {x : Modified} {description : Value} {d : Datum} :
    (x.toProperty description).Admits (Accepts m) (some d) ↔ Accepts m x.toSchema d := by
  rw [accepts_toSchema]
  unfold Modified.toProperty Modified.allowsNull
  cases hn : x.isNullish with
  | true => simp [Property.Admits]
  | false =>
    cases ho : x.optional with
    | true =>
      have hb : x.nullable = false := by
        unfold Modified.isNullish at hn
        cases h : x.nullable <;> simp_all
      simp [Property.Admits, hb]
    | false =>
      cases hb : x.nullable with
      | true => simp [Property.Admits, accepts_nullable]
      | false => simp [Property.Admits]

theorem toProperty_required {x : Modified} {description : Value} :
    (x.toProperty description).required = !(x.isNullish || x.optional) := by
  unfold Modified.toProperty
  cases x.isNullish <;> cases x.optional <;> cases x.nullable <;> rfl

/-- A property whose key is missing. -/
theorem toProperty_admits_none {x : Modified} {description : Value} :
    (x.toProperty description).Admits (Accepts m) none ↔ (x.isNullish || x.optional) = true := by
  rw [Property.Admits, toProperty_required]
  cases x.isNullish <;> cases x.optional <;> decide

end SchemaForge
