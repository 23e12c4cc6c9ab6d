import SchemaForge.Proofs.Acceptance.Datum
import SchemaForge.Proofs.GraphQL.Execution

/-!
# Responses

Which data the execution of an operation may return.

* `TypeSystem.Valid`: what a valid type system guarantees of names, roots and interfaces.
* `Possible`: the types of the objects that may stand at a type.
* `Answers`: an object holds what execution collects for it, each field completed.
* `Completes`: the least relation that `Step` describes: a value at a type reference, null only
  where the layer lets it be.
-/

namespace SchemaForge.GraphQL

open Selection

/-! ## Type systems -/

/-- Objects of a type may stand wherever those of another may. -/
def IsSubtype (t u : NamedType) : Prop :=
  TypeSystem.allows u t = true ∧
    (t.isObject = true ∨ (t.kind = .interface ∧ u.kind = .interface))

/-- A field of a type reference implements a field of another one. -/
inductive Covers (s : TypeSystem) : TypeRef → TypeRef → Prop
  | same (name : String) : Covers s (.named name) (.named name)
  | sub {name name' : String} {t u : NamedType} : s.find? name = some t → s.find? name' = some u →
    IsSubtype t u → Covers s (.named name) (.named name')
  | list {t u : TypeRef} : Covers s t u → Covers s (.list t) (.list u)
  | nonNull {t u : TypeRef} : Covers s t u → Covers s (.nonNull t) (.nonNull u)
  | strict {t u : TypeRef} : Covers s t u → Covers s (.nonNull t) u

theorem Covers.refl {s : TypeSystem} : ∀ t : TypeRef, Covers s t t
  | .named name => .same name
  | .list t => .list (.refl t)
  | .nonNull t => .nonNull (.refl t)

/-- What is used of the validity of a type system: names are distinct, operations begin at objects,
and whoever declares an interface declares what the interface declares and has its fields. -/
structure TypeSystem.Valid (s : TypeSystem) : Prop where
  names : (s.types.map (·.name)).Nodup
  roots : ∀ kind t, s.root? kind = some t → t.isObject = true
  parents : ∀ t ∈ s.types, ∀ u, s.find? u.name = some u → u.name ∈ t.interfaces →
    ∀ name ∈ u.interfaces, name ∈ t.interfaces
  fields : ∀ t ∈ s.types, ∀ u, s.find? u.name = some u → u.name ∈ t.interfaces →
    ∀ name f, u.field? name = some f → ∃ f', t.field? name = some f' ∧ Covers s f'.type f.type

/-- Objects of type `r` may stand at type `t`. -/
def Possible (s : TypeSystem) (t r : NamedType) : Prop :=
  (t.isObject = true ∧ r = t) ∨
    (t.isAbstract = true ∧ r ∈ s.types ∧ r.isObject = true ∧ TypeSystem.allows t r = true)

variable {s : TypeSystem} {t u r : NamedType} {name : String}

theorem TypeSystem.mem_of_find? (h : s.find? name = some t) : t ∈ s.types :=
  List.mem_of_find?_eq_some h

theorem TypeSystem.name_of_find? (h : s.find? name = some t) : t.name = name := by
  simpa using List.find?_some h

theorem find?_of_nodup {types : List NamedType} (hd : (types.map (·.name)).Nodup)
    (ht : t ∈ types) : types.find? (·.name == t.name) = some t := by
  induction types with
  | nil => cases ht
  | cons x types ih =>
    rw [List.map_cons, List.nodup_cons] at hd
    rw [List.find?_cons]
    rcases List.mem_cons.mp ht with rfl | ht
    · rw [beq_self_eq_true]
    · have hne : (x.name == t.name) = false := by
        rw [beq_eq_false_iff_ne]
        intro h
        exact hd.1 (h ▸ List.mem_map_of_mem ht)
      rw [hne]
      exact ih hd.2 ht

theorem TypeSystem.Valid.find?_name (hs : s.Valid) (ht : t ∈ s.types) :
    s.find? t.name = some t :=
  find?_of_nodup hs.names ht

theorem isAbstract_of_allows (h : TypeSystem.allows t r = true) : t.isAbstract = true := by
  unfold TypeSystem.allows at h
  unfold NamedType.isAbstract NamedType.kind
  split at h
  · simp_all
  · simp_all
  all_goals cases h

theorem allows_interface (ht : t.kind = .interface) :
    TypeSystem.allows t r = true ↔ t.name ∈ r.interfaces := by
  unfold NamedType.kind at ht
  unfold TypeSystem.allows
  split at ht <;> simp_all

theorem not_isObject_of_isAbstract (h : t.isAbstract = true) : t.isObject = false := by
  unfold NamedType.isAbstract at h
  unfold NamedType.isObject
  rcases hk : t.kind <;> rw [hk] at h <;> first | rfl | exact absurd h (by decide)

theorem Possible.isObject (h : Possible s t r) : r.isObject = true := by
  rcases h with ⟨ht, rfl⟩ | ⟨-, -, hr, -⟩
  · exact ht
  · exact hr

/-- **What may stand at a type may stand at the types that it is a subtype of.** -/
theorem Possible.of_isSubtype (hs : s.Valid) (ht : t ∈ s.types) (h : IsSubtype t u)
    (hr : Possible s t r) : Possible s u r := by
  obtain ⟨hallows, hkind⟩ := h
  refine .inr ⟨isAbstract_of_allows hallows, ?_⟩
  rcases hr with ⟨hobj, rfl⟩ | ⟨habs, hr, hobj, hallows'⟩
  · exact ⟨ht, hobj, hallows⟩
  · obtain ⟨hti, hui⟩ := hkind.resolve_left (by rw [not_isObject_of_isAbstract habs]; decide)
    refine ⟨hr, hobj, (allows_interface hui).mpr ?_⟩
    exact hs.parents r hr t (hs.find?_name ht) ((allows_interface hti).mp hallows') u.name
      ((allows_interface hui).mp hallows)

/-- A selection on a type applies to the objects that may stand there. -/
theorem applies_of_possible (hs : s.Valid) (ht : t ∈ s.types) (h : Possible s t r) :
    applies s r t.name = true := by
  unfold applies
  rcases h with ⟨-, rfl⟩ | ⟨habs, -, hobj, hallows⟩
  · rw [beq_self_eq_true, Bool.true_or]
  · rw [hs.find?_name ht]
    simp [habs, hobj, hallows]

/-- The objects that may stand at a union or an interface have its possible types. -/
theorem mem_possibleTypes (hs : s.Valid) (habs : t.isAbstract = true) (h : Possible s t r) :
    r ∈ s.possibleTypes t := by
  obtain ⟨-, hr, hobj, hallows⟩ := h.resolve_left fun h => by
    rw [not_isObject_of_isAbstract habs] at h
    exact absurd h.1 (by decide)
  unfold TypeSystem.allows at hallows
  unfold TypeSystem.possibleTypes
  split at hallows
  · exact List.mem_filterMap.mpr ⟨r.name, by simpa using hallows, hs.find?_name hr⟩
  · refine List.mem_flatMap.mpr ⟨r, List.mem_filter.mpr ⟨hr, hobj⟩, ?_⟩
    rw [List.mem_replicate]
    refine ⟨Nat.pos_iff_ne_zero.mp (List.count_pos_iff.mpr ?_), rfl⟩
    simpa using hallows
  all_goals cases hallows

/-- **A field of a type is implemented by the objects that may stand there.** -/
theorem Possible.field? (hs : s.Valid) (ht : t ∈ s.types) (h : Possible s t r) {f : Field}
    (hf : t.field? name = some f) : ∃ f', r.field? name = some f' ∧ Covers s f'.type f.type := by
  rcases h with ⟨-, rfl⟩ | ⟨habs, hr, -, hallows⟩
  · exact ⟨f, hf, .refl _⟩
  · rcases hshape : t.shape with _ | _ | ⟨interfaces, fields⟩ | members | _ | _
    case interface =>
      have hkind : t.kind = .interface := by rw [NamedType.kind, hshape]
      exact hs.fields r hr t (hs.find?_name ht) ((allows_interface hkind).mp hallows) name f hf
    all_goals simp [NamedType.field?, NamedType.fields?, hshape, NamedType.isAbstract,
      NamedType.kind] at hf habs

/-! ## Values -/

/-- The uses of one key. -/
def usesOf (out : List (String × Use)) (key : String) : List Use :=
  (out.filter (·.1 == key)).map (·.2)

/-- The selections of all uses of one key. -/
def mergedAt (out : List (String × Use)) (key : String) : List Selection :=
  (usesOf out key).flatMap (·.selections)

/-- Execution fills an object of a type with what it collects: under each key the value of the field
that is first asked for, with the selections of all uses of the key. A field that the type does not
have tells of the type system itself, and may hold anything. -/
structure Answers (c : Setting) (σ : Assignment) (V : TypeRef → List Selection → Datum → Prop)
    (t : NamedType) (l : List Selection) (members : List (String × Datum))
    (out : List (String × Use)) : Prop where
  collects : ∃ seen, Collects c.system c.fragments t σ [] l out seen
  keys : ∀ member ∈ members, member.1 ∈ out.map (·.1)
  typeName : ∀ key use, out.find? (·.1 == key) = some (key, use) → use.name = "__typename" →
    members.lookup key = some (.text t.name)
  field : ∀ key use, out.find? (·.1 == key) = some (key, use) → use.name ≠ "__typename" →
    ∀ f, t.field? use.name = some f →
      ∃ d, members.lookup key = some d ∧ V f.type (mergedAt out key) d

/-- What execution needs to know beside a document. -/
structure Server where
  /-- The values of variables in conditions. -/
  assignment : Assignment
  /-- What the values of a scalar are written as. -/
  serialized : String → Datum → Prop

/-- A value that is not null at a named type. -/
def HoldsAt (c : Setting) (server : Server) (V : TypeRef → List Selection → Datum → Prop)
    (t : NamedType) (l : List Selection) (d : Datum) : Prop :=
  match t.shape with
  | .scalar => server.serialized t.name d
  | .enum values => ∃ v ∈ values, d = .text v
  | _ => ∃ r members out, Possible c.system t r ∧ d = .object members ∧
    Answers c server.assignment V r l members out

/-- A value at a type reference, given which values are completed at its parts. -/
def TypeRef.Step (c : Setting) (server : Server) (V : TypeRef → List Selection → Datum → Prop) :
    TypeRef → List Selection → Datum → Prop
  | .nonNull t, l, d => d ≠ .null ∧ V t l d
  | .list t, l, d => d = .null ∨ ∃ ds, d = .list ds ∧ ∀ x ∈ ds, V t l x
  | .named name, l, d => d = .null ∨
    ∃ t, c.system.find? name = some t ∧ HoldsAt c server V t l d

/-- Execution may complete a selection at a type reference with a value. -/
inductive Completes (c : Setting) (server : Server) : TypeRef → List Selection → Datum → Prop
  | of {t : TypeRef} {l : List Selection} {d : Datum}
    (V : TypeRef → List Selection → Datum → Prop) :
    (∀ t l d, V t l d → Completes c server t l d) → t.Step c server V l d →
    Completes c server t l d

/-- A step of completion whose parts are completed. -/
theorem Completes.step {c : Setting} {server : Server} {t : TypeRef} {l : List Selection}
    {d : Datum} (h : t.Step c server (Completes c server) l d) : Completes c server t l d :=
  .of _ (fun _ _ _ h => h) h

/-- Execution may answer a selection on an object with these members. -/
def Responds (c : Setting) (server : Server) (t : NamedType) (l : List Selection)
    (members : List (String × Datum)) : Prop :=
  ∃ out, Answers c server.assignment (Completes c server) t l members out

end SchemaForge.GraphQL
