import SchemaForge.Proofs.Acceptance.Schema
import SchemaForge.Proofs.GraphQL.Steps

/-!
# Wrappers of a type, read back

A type wears list and non-null wrappers. Lowering turns a list into an array, and a layer without
`!` into a flag, a null beside the schema, or a property that may be missing.

* `TypeRef.wrappers`, `TypeRef.Proper`: the wrappers of a type, and types as they can be written.
* `Schema.wrappers`, `Modified.wrappers`, `Property.wrappers`: the wrappers that are read back.
* `Lowering.lowered`, `wrapped_outcome`: what a type is lowered to.
* **`wrappers_lowered`**, **`layered_lowered`**: what is read back, and where null is accepted.
* **`wrappers_kept`**: components, responses and inputs keep the wrappers of their fields.
-/

namespace SchemaForge

namespace GraphQL

/-! ## Types -/

/-- A wrapper of a type. -/
inductive Wrapper where
  | list
  | nonNull
  deriving DecidableEq, Repr

namespace TypeRef

/-- The wrappers of a type, the outermost first. -/
def wrappers : TypeRef → List Wrapper
  | .named _ => []
  | .list item => .list :: item.wrappers
  | .nonNull of => .nonNull :: of.wrappers

/-- Types without a non-null wrapper directly around another one. -/
inductive Proper : TypeRef → Prop
  | named (name : String) : Proper (.named name)
  | strict (name : String) : Proper (.nonNull (.named name))
  | list {item : TypeRef} : Proper item → Proper (.list item)
  | strictList {item : TypeRef} : Proper item → Proper (.nonNull (.list item))

/-- For each list layer of a type, and for the named type at last, whether a `!` stands there. -/
def strictness : TypeRef → List Bool
  | .named _ => [false]
  | .list item => false :: item.strictness
  | .nonNull of => true :: of.strictness.tail

end TypeRef

end GraphQL

open GraphQL (TypeRef Wrapper)

/-! ## Wrappers that are read back -/

mutual

/-- The wrappers that are read from a schema whose own null stands elsewhere. -/
def Schema.innerWrappers : Schema → List Wrapper
  | .array items _ => .list :: items.wrappers
  | _ => []

/-- The wrappers that are read from the schema of a value. Where null stands beside another schema
there is no `!`. -/
def Schema.wrappers : Schema → List Wrapper
  | .union (s :: rest) _ => if (s :: rest).any Schema.isNull then s.innerWrappers else [.nonNull]
  | .array items _ => .nonNull :: .list :: items.wrappers
  | _ => [.nonNull]

end

/-- The wrappers that are read from a schema and its flag. -/
def Modified.wrappers (x : Modified) : List Wrapper :=
  if x.nullable then x.schema.innerWrappers else .nonNull :: x.schema.innerWrappers

/-- The wrappers that are read from a property: there is no `!` where it may be missing. -/
def Property.wrappers (p : Property Schema) : List Wrapper :=
  if p.required then p.schema.wrappers else p.schema.innerWrappers

/-- The schemas of the values at the list layers of a schema, and of those at last. -/
def Schema.layers : Schema → List Schema
  | .array items d => .array items d :: items.layers
  | .union (.array items d :: rest) d' =>
    .union (.array items d :: rest) d' :: if rest.any Schema.isNull then items.layers else []
  | s => [s]

/-- A schema that is neither an array nor a union with a null member. -/
def Schema.IsBare : Schema → Prop
  | .array .. => False
  | .union members _ => members.any Schema.isNull = false
  | _ => True

/-- Where null is accepted: at a list layer only without `!`, and at last also where the schema of
the named type accepts it. -/
def Layered (M : Meaning) (named : Schema) : List Schema → List Bool → Prop
  | [s], [strict] => Accepts M s .null ↔ strict = false ∨ Accepts M named .null
  | s :: more, strict :: flags =>
    (Accepts M s .null ↔ strict = false) ∧ Layered M named more flags
  | _, _ => False

namespace GraphQL.Lowering

variable {s : TypeSystem} {build : NamedType → Lower Schema} {t : TypeRef} {r : Schema}
  {n : NamedType} {M : Meaning}

/-! ## What a type is lowered to -/

/-- What a type is lowered to when the named type under its wrappers has a schema. -/
def lowered (r : Schema) : TypeRef → Modified
  | .named _ => { schema := r, nullable := true }
  | .list item => { schema := .array (lowered r item).toSchema .null, nullable := true }
  | .nonNull of => { lowered r of with nullable := false }

theorem lowered_flags (r : Schema) : ∀ t : TypeRef,
    (lowered r t).optional = false ∧ (lowered r t).nullish = false
  | .named _ => ⟨rfl, rfl⟩
  | .list _ => ⟨rfl, rfl⟩
  | .nonNull of => lowered_flags r of

/-- A schema with its absence is given by the schema and whether null is accepted. -/
theorem lowered_eq (r : Schema) (t : TypeRef) : lowered r t =
    { schema := (lowered r t).schema, nullable := (lowered r t).nullable } := by
  obtain ⟨ho, hn⟩ := lowered_flags r t
  rw [Modified.mk.injEq]
  exact ⟨rfl, rfl, ho, hn⟩

/-- **What a type is lowered to.** -/
theorem wrapped_outcome (hr : (build n).outcome = .ok r) : ∀ {t : TypeRef},
    s.find? t.name = some n → (wrapped s build t).outcome = .ok (lowered r t)
  | .named name, hn => by
    rw [TypeRef.name] at hn
    rw [wrapped, hn, Logged.outcome_bind hr]
    rfl
  | .list item, hn => by
    have hitem : (wrapped s build item).outcome = .ok (lowered r item) := wrapped_outcome hr hn
    rw [wrapped, Logged.outcome_bind hitem, ← lowered_eq]
    rfl
  | .nonNull of, hn => by
    have hof : (wrapped s build of).outcome = .ok (lowered r of) := wrapped_outcome hr hn
    rw [wrapped, Logged.outcome_bind hof]
    rfl

/-! ## Reading it back -/

theorem isNull_of_isBare (hb : r.IsBare) {s : Schema} {rest : List Schema} {d : Value}
    (h : r = .union (s :: rest) d) : (s :: rest).any Schema.isNull = false := by
  subst h
  exact hb

theorem innerWrappers_of_isBare (hb : r.IsBare) : r.innerWrappers = [] := by
  cases r with
  | array => exact absurd hb id
  | _ => rfl

theorem wrappers_of_isBare (hb : r.IsBare) : r.wrappers = [.nonNull] := by
  unfold Schema.wrappers
  split
  · rw [isNull_of_isBare hb rfl]
    rfl
  · exact absurd hb id
  · rfl

theorem nullable_of_isBare (hb : r.IsBare) : r.nullable = .union [r, .null] .null := by
  unfold Schema.nullable
  split
  · exact if_neg (by rw [show _ = false from hb]; decide)
  · rfl

theorem layers_of_isBare (hb : r.IsBare) : r.layers = [r] := by
  unfold Schema.layers
  split
  · exact absurd hb id
  · have hnone := isNull_of_isBare hb rfl
    rw [List.any_cons, Bool.or_eq_false_iff] at hnone
    rw [if_neg (by rw [hnone.2]; decide)]
  · rfl

theorem layers_nullable_of_isBare (hb : r.IsBare) : r.nullable.layers = [r.nullable] := by
  rw [nullable_of_isBare hb]
  cases r with
  | array => exact absurd hb id
  | _ => rfl

/-- The schema under the flags of what a type is lowered to. -/
theorem lowered_schema (hb : r.IsBare) : ∀ t : TypeRef,
    (lowered r t).schema.nullable.wrappers = (lowered r t).schema.innerWrappers ∧
      (lowered r t).schema.wrappers = .nonNull :: (lowered r t).schema.innerWrappers
  | .named _ => by
    rw [lowered, wrappers_of_isBare hb, nullable_of_isBare hb, innerWrappers_of_isBare hb]
    refine ⟨?_, rfl⟩
    rw [Schema.wrappers, if_pos (by simp [Schema.isNull]), innerWrappers_of_isBare hb]
  | .list _ => ⟨rfl, rfl⟩
  | .nonNull of => lowered_schema hb of

/-- Nothing is lost where a schema becomes that of a value. -/
theorem wrappers_toSchema (hb : r.IsBare) (t : TypeRef) :
    (lowered r t).toSchema.wrappers = (lowered r t).wrappers := by
  obtain ⟨hnullable, hplain⟩ := lowered_schema hb t
  rw [lowered_eq, Modified.toSchema, Modified.wrappers]
  cases (lowered r t).nullable with
  | true => exact hnullable
  | false => exact hplain

/-- **The wrappers of a type are read back** from what it is lowered to. -/
theorem wrappers_lowered (hb : r.IsBare) (ht : t.Proper) :
    (lowered r t).wrappers = t.wrappers := by
  induction ht with
  | named name => exact innerWrappers_of_isBare hb
  | strict name => exact congrArg (_ :: ·) (innerWrappers_of_isBare hb)
  | @list item _ ih => exact congrArg (_ :: ·) ((wrappers_toSchema hb item).trans ih)
  | @strictList item _ ih =>
    exact congrArg (_ :: _ :: ·) ((wrappers_toSchema hb item).trans ih)

/-- They are read back from its property, too. -/
theorem wrappers_toProperty (hb : r.IsBare) (t : TypeRef) (d : Value) :
    ((lowered r t).toProperty d).wrappers = (lowered r t).wrappers := by
  obtain ⟨hnullable, hplain⟩ := lowered_schema hb t
  rw [lowered_eq, Modified.toProperty, Modified.wrappers]
  cases (lowered r t).nullable with
  | true => exact hnullable
  | false => exact hplain

/-- They are read back from the property of an input, which may be missing in place of null. -/
theorem wrappers_input (hb : r.IsBare) (t : TypeRef) (d : Value) :
    (Modified.toProperty { schema := (lowered r t).schema, nullish := (lowered r t).nullable }
      d).wrappers = (lowered r t).wrappers := by
  rw [Modified.toProperty, Modified.wrappers]
  cases (lowered r t).nullable with
  | true => rfl
  | false => exact (lowered_schema hb t).2

/-! ## Null at each layer -/

theorem layered_cons {x : Schema} {more : List Schema} {strict : Bool} {flags : List Bool}
    (h : Accepts M x .null ↔ strict = false) (hmore : Layered M r more flags) :
    Layered M r (x :: more) (strict :: flags) := by
  cases more with
  | nil => exact absurd hmore (by cases flags <;> exact id)
  | cons => exact ⟨h, hmore⟩

theorem not_accepts_array {items : Schema} {d : Value} : ¬ Accepts M (.array items d) .null := by
  rw [accepts_iff]
  rintro ⟨ds, h, -⟩
  cases h

/-- **Null is accepted exactly where there is no `!`**, and where the named type itself accepts
it. -/
theorem layered_lowered (hb : r.IsBare) (ht : t.Proper) :
    Layered M r (lowered r t).toSchema.layers t.strictness := by
  induction ht with
  | named name =>
    change Layered M r r.nullable.layers [false]
    rw [layers_nullable_of_isBare hb]
    exact iff_of_true (accepts_nullable.mpr (.inr rfl)) (.inl rfl)
  | strict name =>
    change Layered M r r.layers [true]
    rw [layers_of_isBare hb]
    exact (or_iff_right (by decide)).symm
  | list _ ih =>
    refine layered_cons (iff_of_true ?_ rfl) ih
    exact accepts_union.mpr ⟨_, .tail _ (.head _), accepts_null.mpr rfl⟩
  | strictList _ ih =>
    exact layered_cons (iff_of_false not_accepts_array (by decide)) ih

/-! ## Fields -/

variable {c : Setting} {place : Place} {owner : NamedType} {f : Field}

theorem componentProperty_wrappers (hn : c.system.find? f.type.name = some n)
    (hr : (componentNamed c n).outcome = .ok r) (hb : r.IsBare) (ht : f.type.Proper) :
    ∃ p, (componentProperty c f).outcome = .ok p ∧ p.wrappers = f.type.wrappers := by
  refine ⟨(lowered r f.type).toProperty f.description, ?_, ?_⟩
  · rw [componentProperty, Logged.outcome_bind (wrapped_outcome hr hn)]
    rfl
  · rw [wrappers_toProperty hb, wrappers_lowered hb ht]

theorem inputProperty_wrappers (hn : c.system.find? f.type.name = some n)
    (hr : (inputNamed c n).outcome = .ok r) (hb : r.IsBare) (ht : f.type.Proper) :
    ∃ p, (inputProperty c f).outcome = .ok p ∧ p.wrappers = f.type.wrappers := by
  refine ⟨_, ?_, (wrappers_input hb f.type f.description).trans (wrappers_lowered hb ht)⟩
  rw [inputProperty, Logged.outcome_bind (wrapped_outcome hr hn)]
  rfl

theorem property_wrappers {nested : NamedType → List Selection → Lower Schema} {g : Group}
    (hname : g.first.name ≠ "__typename") (hf : owner.field? g.first.name = some f)
    (hg : g.isConditional = false) (hn : c.system.find? f.type.name = some n)
    (hr : (part c nested g.selections n).outcome = .ok r) (hb : r.IsBare) (ht : f.type.Proper) :
    ∃ p, (property c place nested owner g).outcome = .ok (some (.str g.key, p)) ∧
      p.wrappers = f.type.wrappers := by
  refine ⟨(lowered r f.type).toProperty f.description, ?_, ?_⟩
  · have hplain : { lowered r f.type with optional := g.isConditional } = lowered r f.type := by
      rw [hg, lowered_eq]
    rw [property_field hname hf, Logged.outcome_bind (wrapped_outcome hr hn)]
    dsimp only
    rw [hplain]
    rfl
  · rw [wrappers_toProperty hb, wrappers_lowered hb ht]

/-- **Main statement.** A type that can be written is lowered whenever the named type under its
wrappers is, and if the schema of that type is neither an array nor a union with null, the wrappers
are read back: from the schema and its flag, from the property made of these, and from the property
in which null makes way for absence. At each list layer null is accepted exactly if no `!` stands
there; at last, where the schema of the named type accepts it, too. So the fields of components,
inputs and unconditional responses keep their wrappers. -/
theorem wrappers_kept (hn : c.system.find? f.type.name = some n) (ht : f.type.Proper) :
    (∀ (build : NamedType → Lower Schema) (r : Schema), (build n).outcome = .ok r → r.IsBare →
      ∃ x, (wrapped c.system build f.type).outcome = .ok x ∧ x.wrappers = f.type.wrappers ∧
        (∀ M, Layered M r x.toSchema.layers f.type.strictness) ∧
        (∀ d, (x.toProperty d).wrappers = f.type.wrappers) ∧
        ∀ d, (Modified.toProperty { schema := x.schema, nullish := x.nullable } d).wrappers =
          f.type.wrappers) ∧
    (∀ r, (componentNamed c n).outcome = .ok r → r.IsBare →
      ∃ p, (componentProperty c f).outcome = .ok p ∧ p.wrappers = f.type.wrappers) ∧
    (∀ r, (inputNamed c n).outcome = .ok r → r.IsBare →
      ∃ p, (inputProperty c f).outcome = .ok p ∧ p.wrappers = f.type.wrappers) ∧
    ∀ (place : Place) (nested : NamedType → List Selection → Lower Schema) (owner : NamedType)
      (g : Group) (r : Schema), g.first.name ≠ "__typename" → g.isConditional = false →
      owner.field? g.first.name = some f → (part c nested g.selections n).outcome = .ok r →
      r.IsBare →
      ∃ p, (property c place nested owner g).outcome = .ok (some (.str g.key, p)) ∧
        p.wrappers = f.type.wrappers := by
  refine ⟨fun build r hr hb => ?_, fun r hr hb => componentProperty_wrappers hn hr hb ht,
    fun r hr hb => inputProperty_wrappers hn hr hb ht,
    fun place nested owner g r hname hg hf hr hb => property_wrappers hname hf hg hn hr hb ht⟩
  have hread := wrappers_lowered hb ht
  exact ⟨lowered r f.type, wrapped_outcome hr hn, hread, fun M => layered_lowered hb ht,
    fun d => (wrappers_toProperty hb f.type d).trans hread,
    fun d => (wrappers_input hb f.type d).trans hread⟩

/-- A type of objects. -/
def kennel : NamedType := { name := "Kennel", shape := .object [] [] }

/-- A list that may be null of lists that must not be, in which objects may be null. -/
def rows : Field where
  name := "rows"
  type := .list (.nonNull (.list (.named "Kennel")))

/-- What is known of them. -/
def kennels : Setting := { system := { types := [kennel] }, scalars := default, fragments := [] }

theorem rows_kept : kennels.system.find? rows.type.name = some kennel ∧ rows.type.Proper ∧
    (Schema.ref "Kennel" .null).IsBare ∧
    ∃ component input, (componentProperty kennels rows).outcome = .ok component ∧
      (inputProperty kennels rows).outcome = .ok input ∧
      component.required = true ∧ input.required = false ∧
      component.wrappers = [.list, .nonNull, .list] ∧
      input.wrappers = [.list, .nonNull, .list] := by
  have hn : kennels.system.find? rows.type.name = some kennel := rfl
  have ht : rows.type.Proper := .list (.strictList (.named "Kennel"))
  have hb : (Schema.ref "Kennel" .null).IsBare := trivial
  obtain ⟨-, hcomponent, hinput, -⟩ := wrappers_kept hn ht
  obtain ⟨component, hc, hcw⟩ := hcomponent _ rfl hb
  obtain ⟨input, hi, hiw⟩ := hinput _ rfl hb
  refine ⟨hn, ht, hb, component, input, hc, hi, ?_, ?_, hcw, hiw⟩
  · cases hc
    rfl
  · cases hi
    rfl

end GraphQL.Lowering

end SchemaForge
