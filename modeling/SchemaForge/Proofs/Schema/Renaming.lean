import Mathlib.Data.List.Basic
import SchemaForge.Proofs.Schema.Induction

/-!
# Schemas with other names

* `Schema.mapRefs`: a schema that refers to the same things by other names.
* `Schema.refs_mapRefs`: its references.
* `Modified.mapRefs`, `Property.mapRefs`: the same for a schema with its absence and for a
  property; absence does not see the names.
-/

namespace SchemaForge

namespace Schema

mutual

/-- The schema with another name in each reference. -/
def mapRefs (f : String → String) : Schema → Schema
  | .ref name d => .ref (f name) d
  | .object properties extra d =>
    .object (mapRefsOfProperties f properties) (mapRefsOfExtra f extra) d
  | .array items d => .array (items.mapRefs f) d
  | .tuple items d => .tuple (mapRefsOfAll f items) d
  | .record key value d => .record (key.mapRefs f) (value.mapRefs f) d
  | .union members d => .union (mapRefsOfAll f members) d
  | .intersection members d => .intersection (mapRefsOfAll f members) d
  | .primitive kind d => .primitive kind d
  | .string format least most pattern d => .string format least most pattern d
  | .number integer least most d => .number integer least most d
  | .enum values d => .enum values d
  | .literal value d => .literal value d
  | .raw code d => .raw code d
  | .foreign node => .foreign node

/-- A list of schemas with other names. -/
def mapRefsOfAll (f : String → String) : List Schema → List Schema
  | [] => []
  | s :: rest => s.mapRefs f :: mapRefsOfAll f rest

/-- Properties with other names. -/
def mapRefsOfProperties (f : String → String) :
    List (Atom × Property Schema) → List (Atom × Property Schema)
  | [] => []
  | (key, p) :: rest =>
    (key, { p with schema := p.schema.mapRefs f }) :: mapRefsOfProperties f rest

/-- What an object says of further keys, with other names. -/
def mapRefsOfExtra (f : String → String) : Extra Schema → Extra Schema
  | .typed s => .typed (s.mapRefs f)
  | .unset => .unset
  | .allowed => .allowed
  | .rejected => .rejected

end

end Schema

/-- The property with other names. -/
def Property.mapRefs (f : String → String) (p : Property Schema) : Property Schema :=
  { p with schema := p.schema.mapRefs f }

/-- The schema and its absence with other names. -/
def Modified.mapRefs (f : String → String) (m : Modified) : Modified :=
  { m with schema := m.schema.mapRefs f }

namespace Schema

variable (f : String → String)

theorem mapRefsOfAll_eq : ∀ l : List Schema, mapRefsOfAll f l = l.map (mapRefs f)
  | [] => rfl
  | s :: l => by rw [mapRefsOfAll, mapRefsOfAll_eq l, List.map_cons]

theorem mapRefsOfProperties_eq : ∀ l : List (Atom × Property Schema),
    mapRefsOfProperties f l = l.map (Prod.map id (Property.mapRefs f))
  | [] => rfl
  | (_, _) :: l => by
    rw [mapRefsOfProperties, mapRefsOfProperties_eq l, List.map_cons]
    rfl

/-! ## References -/

theorem refs_mapRefs (s : Schema) : (s.mapRefs f).refs = s.refs.map f := by
  have all : ∀ l : List Schema, (∀ s ∈ l, (s.mapRefs f).refs = s.refs.map f) →
      (l.map (mapRefs f)).flatMap refs = (l.flatMap refs).map f := fun l ih => by
    rw [List.flatMap_map, List.map_flatMap]
    exact List.flatMap_congr ih
  induction s using Schema.induction with
  | primitive | string | number | enum | literal | raw | foreign => rfl
  | ref => rfl
  | object properties extra d ihp ihe =>
    rw [mapRefs, mapRefsOfProperties_eq, refs_object, refs_object, List.map_append,
      List.flatMap_map, List.map_flatMap]
    congr 1
    · exact List.flatMap_congr ihp
    · cases extra with
      | unset | allowed | rejected => rfl
      | typed s => exact ihe s rfl
  | array items d ih => exact ih
  | tuple items d ih =>
    rw [mapRefs, mapRefsOfAll_eq, refs_tuple, refs_tuple, all items ih]
  | record key value d ihk ihv => rw [mapRefs, refs, refs, ihk, ihv, List.map_append]
  | union members d ih =>
    rw [mapRefs, mapRefsOfAll_eq, refs_union, refs_union, all members ih]
  | intersection members d ih =>
    rw [mapRefs, mapRefsOfAll_eq, refs_intersection, refs_intersection, all members ih]

/-! ## Absence -/

@[simp] theorem isNull_mapRefs (s : Schema) : (s.mapRefs f).isNull = s.isNull := by
  cases s <;> rfl

theorem mapRefs_union (members : List Schema) (d : Value) :
    (Schema.union members d).mapRefs f = .union (members.map (mapRefs f)) d :=
  congrArg (Schema.union · d) (mapRefsOfAll_eq f members)

theorem mapRefs_nullable (s : Schema) : s.nullable.mapRefs f = (s.mapRefs f).nullable := by
  have pair : ∀ t : Schema,
      (Schema.union [t, .null] .null).mapRefs f = .union [t.mapRefs f, .null] .null :=
    fun t => mapRefs_union f _ _
  unfold nullable
  cases s with
  | union members d =>
    dsimp only
    rw [mapRefs_union]
    simp only [List.any_map, Function.comp_def, isNull_mapRefs]
    split
    · rw [mapRefs_union]
    · rw [pair, mapRefs_union]
  | _ => exact pair _

theorem mapRefs_nullish (s : Schema) : s.nullish.mapRefs f = (s.mapRefs f).nullish :=
  mapRefs_union f _ _

theorem mapRefs_describe (d : Value) (s : Schema) :
    (s.describe d).mapRefs f = (s.mapRefs f).describe d := by
  cases s <;> rfl

end Schema

namespace Modified

variable (f : String → String) (m : Modified)

theorem mapRefs_toSchema : m.toSchema.mapRefs f = (m.mapRefs f).toSchema := by
  unfold toSchema
  rw [show (m.mapRefs f).isNullish = m.isNullish from rfl,
    show (m.mapRefs f).nullable = m.nullable from rfl,
    show (m.mapRefs f).optional = m.optional from rfl]
  split
  · exact Schema.mapRefs_nullish f _
  · split
    · exact Schema.mapRefs_nullable f _
    · split
      · exact Schema.mapRefs_union f _ _
      · rfl

theorem mapRefs_toProperty (d : Value) :
    (m.toProperty d).mapRefs f = (m.mapRefs f).toProperty d := by
  unfold toProperty
  rw [show (m.mapRefs f).isNullish = m.isNullish from rfl,
    show (m.mapRefs f).nullable = m.nullable from rfl,
    show (m.mapRefs f).optional = m.optional from rfl]
  split
  · rfl
  · split
    · rfl
    · split
      · exact congrArg (fun s => ({ schema := s, description := d } : Property Schema))
          (Schema.mapRefs_nullable f _)
      · rfl

end Modified

/-- The properties of an object with other names. -/
abbrev mapProperties (f : String → String) (l : List (Atom × Property Schema)) :
    List (Atom × Property Schema) := l.map (Prod.map id (Property.mapRefs f))

theorem mapProperties_setProperty (f : String → String) (key : Atom) (p : Property Schema) :
    ∀ l, mapProperties f (setProperty l key p) =
      setProperty (mapProperties f l) key (p.mapRefs f)
  | [] => rfl
  | (k, q) :: l => by
    unfold setProperty
    by_cases h : k.sameKey key = true
    · simp [mapProperties, h]
    · simp only [mapProperties, h, Bool.false_eq_true, if_false, List.map_cons, Prod.map_apply,
        id_eq]
      rw [← mapProperties, ← mapProperties, mapProperties_setProperty f key p l]

end SchemaForge
