import SchemaForge.Schema.Basic

/-!
# Induction on schemas

The parts of a schema stand in lists, in properties and in what an object says of further keys.

* `Schema.induction`: what holds of a schema as soon as it holds of all its parts holds of every
  schema.
* `Schema.refs_union` and its kin: the references of a schema from those of its parts.
-/

namespace SchemaForge.Schema

/-- Induction with one hypothesis for all the parts of a kind. -/
@[elab_as_elim]
theorem induction {motive : Schema → Prop}
    (primitive : ∀ kind d, motive (.primitive kind d))
    (string : ∀ format least most pattern d, motive (.string format least most pattern d))
    (number : ∀ integer least most d, motive (.number integer least most d))
    (object : ∀ properties extra d, (∀ entry ∈ properties, motive entry.2.schema) →
      (∀ s, extra = .typed s → motive s) → motive (.object properties extra d))
    (array : ∀ items d, motive items → motive (.array items d))
    (tuple : ∀ items d, (∀ s ∈ items, motive s) → motive (.tuple items d))
    (record : ∀ key value d, motive key → motive value → motive (.record key value d))
    (enum : ∀ values d, motive (.enum values d))
    (literal : ∀ value d, motive (.literal value d))
    (union : ∀ members d, (∀ s ∈ members, motive s) → motive (.union members d))
    (intersection : ∀ members d, (∀ s ∈ members, motive s) → motive (.intersection members d))
    (ref : ∀ name d, motive (.ref name d))
    (raw : ∀ code d, motive (.raw code d))
    (foreign : ∀ node, motive (.foreign node)) (s : Schema) : motive s :=
  Schema.rec (motive_1 := motive)
    (motive_2 := fun properties => ∀ entry ∈ properties, motive entry.2.schema)
    (motive_3 := fun extra => ∀ s, extra = .typed s → motive s)
    (motive_4 := fun items => ∀ s ∈ items, motive s)
    (motive_5 := fun entry => motive entry.2.schema)
    (motive_6 := fun p => motive p.schema)
    primitive string number object array tuple record enum literal union intersection ref raw
    foreign
    (fun _ h => absurd h List.not_mem_nil)
    (fun _ _ head tail => List.forall_mem_cons.mpr ⟨head, tail⟩)
    (fun _ h => nomatch h) (fun _ h => nomatch h) (fun _ h => nomatch h)
    (fun _ ih _ h => Extra.typed.inj h ▸ ih)
    (fun _ h => absurd h List.not_mem_nil)
    (fun _ _ head tail => List.forall_mem_cons.mpr ⟨head, tail⟩)
    (fun _ _ ih => ih)
    (fun _ _ _ _ ih => ih)
    s

/-! ## References of parts -/

theorem refsOfAll_eq : ∀ l : List Schema, refsOfAll l = l.flatMap refs
  | [] => rfl
  | s :: l => congrArg (s.refs ++ ·) (refsOfAll_eq l)

theorem refsOfProperties_eq : ∀ l : List (Atom × Property Schema),
    refsOfProperties l = l.flatMap fun entry => entry.2.schema.refs
  | [] => rfl
  | (_, p) :: l => congrArg (p.schema.refs ++ ·) (refsOfProperties_eq l)

theorem refs_tuple (items : List Schema) (d : Value) :
    (Schema.tuple items d).refs = items.flatMap refs := refsOfAll_eq items

theorem refs_union (members : List Schema) (d : Value) :
    (Schema.union members d).refs = members.flatMap refs := refsOfAll_eq members

theorem refs_intersection (members : List Schema) (d : Value) :
    (Schema.intersection members d).refs = members.flatMap refs := refsOfAll_eq members

theorem refs_object (properties : List (Atom × Property Schema)) (extra : Extra Schema)
    (d : Value) : (Schema.object properties extra d).refs =
      (properties.flatMap fun entry => entry.2.schema.refs) ++ refsOfExtra extra :=
  congrArg (· ++ refsOfExtra extra) (refsOfProperties_eq properties)

end SchemaForge.Schema
