import Mathlib.Data.List.Basic
import SchemaForge.Proofs.Schema.Induction
import SchemaForge.Proofs.Schema.WellTyped

/-!
# The nodes of a schema

* `Schema.nodes`: a schema and all schemas in it, each one before its parts.
* `Schema.nodes_union` and its kin: the nodes of a schema from those of its parts.
* `Schema.refs_eq_nodes`: the references of a schema are its nodes that are references.
* `Foreign.isUnknown`: a foreign node of no kind that the libraries know.
* `Schema.Typed`: the values at every node are of the kinds that the node asks for.
-/

namespace SchemaForge

/-- Whether a foreign node gives itself no kind that the libraries know. -/
def Foreign.isUnknown (node : Foreign) : Bool := node.kind?.all (!Schema.kinds.contains ·)

namespace Schema

mutual

/-- The schemas in a schema, each one before its own parts. -/
def inner : Schema → List Schema
  | .object properties extra _ => nodesOfProperties properties ++ nodesOfExtra extra
  | .array items _ => items :: items.inner
  | .tuple items _ => nodesOfAll items
  | .record key value _ => key :: key.inner ++ value :: value.inner
  | .union members _ => nodesOfAll members
  | .intersection members _ => nodesOfAll members
  | .primitive .. | .string .. | .number .. | .enum .. | .literal .. | .ref .. | .raw ..
  | .foreign _ => []

/-- The schemas of a list, with those in them. -/
def nodesOfAll : List Schema → List Schema
  | [] => []
  | s :: rest => s :: s.inner ++ nodesOfAll rest

/-- The schemas in the properties of an object. -/
def nodesOfProperties : List (Atom × Property Schema) → List Schema
  | [] => []
  | (_, p) :: rest => p.schema :: p.schema.inner ++ nodesOfProperties rest

/-- The schemas in what an object says of further keys. -/
def nodesOfExtra : Extra Schema → List Schema
  | .typed s => s :: s.inner
  | .unset | .allowed | .rejected => []

end

/-- A schema and all schemas in it, in the order in which they stand. -/
def nodes (s : Schema) : List Schema := s :: s.inner

theorem nodesOfAll_eq : ∀ l : List Schema, nodesOfAll l = l.flatMap nodes
  | [] => rfl
  | s :: l => congrArg (s.nodes ++ ·) (nodesOfAll_eq l)

theorem nodes_subset_all {s : Schema} {l : List Schema} (h : s ∈ l) : s.nodes ⊆ nodesOfAll l := by
  rw [nodesOfAll_eq]
  exact fun node hn => List.mem_flatMap.mpr ⟨s, h, hn⟩

theorem nodesOfProperties_eq : ∀ l : List (Atom × Property Schema),
    nodesOfProperties l = l.flatMap fun entry => entry.2.schema.nodes
  | [] => rfl
  | (_, p) :: l => congrArg (p.schema.nodes ++ ·) (nodesOfProperties_eq l)

theorem nodes_tuple (items : List Schema) (d : Value) :
    (tuple items d).nodes = tuple items d :: items.flatMap nodes :=
  congrArg _ (nodesOfAll_eq items)

theorem nodes_union (members : List Schema) (d : Value) :
    (union members d).nodes = union members d :: members.flatMap nodes :=
  congrArg _ (nodesOfAll_eq members)

theorem nodes_intersection (members : List Schema) (d : Value) :
    (intersection members d).nodes = intersection members d :: members.flatMap nodes :=
  congrArg _ (nodesOfAll_eq members)

theorem nodes_object (properties : List (Atom × Property Schema)) (extra : Extra Schema)
    (d : Value) : (object properties extra d).nodes = object properties extra d ::
      ((properties.flatMap fun entry => entry.2.schema.nodes) ++ nodesOfExtra extra) := by
  rw [← nodesOfProperties_eq]
  rfl

theorem nodes_record (key value : Schema) (d : Value) :
    (record key value d).nodes = record key value d :: (key.nodes ++ value.nodes) := rfl

/-! ## References among the nodes -/

/-- The name of a node that is a reference. -/
def refName? : Schema → Option String
  | .ref name _ => some name
  | _ => none

/-- The name by which a foreign node goes. -/
def foreignLabel? : Schema → Option String
  | .foreign node => some node.label
  | _ => none

/-- **The references of a schema** are those among its nodes, in the same order. -/
theorem refs_eq_nodes (s : Schema) : s.refs = s.nodes.filterMap refName? := by
  have hall : ∀ l : List Schema, (∀ s ∈ l, s.refs = s.nodes.filterMap refName?) →
      l.flatMap refs = (l.flatMap nodes).filterMap refName? := by
    intro l ih
    rw [List.filterMap_flatMap]
    exact List.flatMap_congr ih
  induction s using Schema.induction with
  | primitive | string | number | enum | literal | ref | raw | foreign => rfl
  | object properties extra d ihp ihe =>
    rw [refs_object, nodes_object, List.filterMap_cons_none rfl, List.filterMap_append,
      List.filterMap_flatMap, List.flatMap_congr ihp]
    cases extra with
    | unset | allowed | rejected => rfl
    | typed s => exact congrArg _ (ihe s rfl)
  | array items d ih => exact ih
  | tuple items d ih => rw [refs_tuple, nodes_tuple, List.filterMap_cons_none rfl, hall _ ih]
  | record key value d ihk ihv =>
    rw [refs, nodes_record, List.filterMap_cons_none rfl, List.filterMap_append, ihk, ihv]
  | union members d ih => rw [refs_union, nodes_union, List.filterMap_cons_none rfl, hall _ ih]
  | intersection members d ih =>
    rw [refs_intersection, nodes_intersection, List.filterMap_cons_none rfl, hall _ ih]

/-! ## Values of the right kinds -/

/-- Whether a property has a text as its key, and a text or nothing as its description. -/
def isTypedProperty : Atom × Property Schema → Bool
  | (.str _, p) => p.description.isTextOrNull
  | _ => false

/-- Whether the values at the node of a schema, but not those in its parts, are of the kinds that it
asks for. -/
def isTyped : Schema → Bool
  | .string _ least most pattern d =>
    least.isNumberOrNull && most.isNumberOrNull && pattern.isTextOrNull && d.isTextOrNull
  | .number _ least most d => least.isNumberOrNull && most.isNumberOrNull && d.isTextOrNull
  | .object properties _ d => properties.all isTypedProperty && d.isTextOrNull
  | .enum values d => values.all Value.isScalar && d.isTextOrNull
  | .literal value d => value.isScalar && d.isTextOrNull
  | .foreign node => node.isUnknown && node.description.isTextOrNull
  | s => s.description.isTextOrNull

/-- The values at all nodes of a schema are of the right kinds. References may have any name, code
of its own may be any text, and foreign nodes may be of any kind that the libraries do not know. -/
def Typed (s : Schema) : Prop := ∀ node ∈ s.nodes, node.isTyped

instance : DecidablePred Typed := fun s => inferInstanceAs (Decidable (∀ node ∈ s.nodes, _))

namespace Typed

variable {s : Schema} {d : Value}

theorem isTyped (h : s.Typed) : s.isTyped := h s List.mem_cons_self

/-- The values in the parts of a schema are of the right kinds too. -/
theorem part {p : Schema} (h : s.Typed) (hp : p.nodes ⊆ s.inner) : p.Typed :=
  fun node hn => h node (.tail _ (hp hn))

theorem description (h : s.Typed) : s.description.isTextOrNull := by
  have hs := h.isTyped
  cases s with
  | string | number | object | enum | literal | foreign => exact (Bool.and_eq_true_iff.mp hs).2
  | _ => exact hs

theorem string {format : Option String} {least most pattern : Value}
    (h : (Schema.string format least most pattern d).Typed) :
    least.isNumberOrNull ∧ most.isNumberOrNull ∧ pattern.isTextOrNull := by
  have hs := h.isTyped
  simp only [Schema.isTyped, Bool.and_eq_true] at hs
  exact ⟨hs.1.1.1, hs.1.1.2, hs.1.2⟩

section Object

variable {properties : List (Atom × Property Schema)} {extra : Extra Schema}
  {entry : Atom × Property Schema}

theorem property (h : (Schema.object properties extra d).Typed) (he : entry ∈ properties) :
    entry.2.schema.Typed := by
  refine h.part (List.Subset.trans ?_ (List.subset_append_left _ _))
  rw [nodesOfProperties_eq]
  exact fun node hn => List.mem_flatMap.mpr ⟨entry, he, hn⟩

theorem furtherValues (h : (Schema.object properties (.typed s) d).Typed) : s.Typed :=
  h.part (List.subset_append_right _ _)

theorem isTypedProperty (h : (Schema.object properties extra d).Typed) (he : entry ∈ properties) :
    isTypedProperty entry :=
  List.all_eq_true.mp (Bool.and_eq_true_iff.mp h.isTyped).1 entry he

theorem key (h : (Schema.object properties extra d).Typed) (he : entry ∈ properties) :
    ∃ key, entry.1 = .str key := by
  have hentry := h.isTypedProperty he
  unfold Schema.isTypedProperty at hentry
  split at hentry
  · exact ⟨_, rfl⟩
  · cases hentry

theorem propertyDescription (h : (Schema.object properties extra d).Typed)
    (he : entry ∈ properties) : entry.2.description.isTextOrNull := by
  have hentry := h.isTypedProperty he
  unfold Schema.isTypedProperty at hentry
  split at hentry
  · exact hentry
  · cases hentry

end Object

variable {l : List Schema}

theorem items (h : (Schema.array s d).Typed) : s.Typed := h.part (List.Subset.refl _)

theorem recordKey {value : Schema} (h : (Schema.record s value d).Typed) : s.Typed :=
  h.part (List.subset_append_left _ _)

theorem recordValue {key : Schema} (h : (Schema.record key s d).Typed) : s.Typed :=
  h.part (List.subset_append_right _ _)

theorem tuple (h : (Schema.tuple l d).Typed) (hs : s ∈ l) : s.Typed :=
  h.part (nodes_subset_all hs)

theorem union (h : (Schema.union l d).Typed) (hs : s ∈ l) : s.Typed :=
  h.part (nodes_subset_all hs)

theorem intersection (h : (Schema.intersection l d).Typed) (hs : s ∈ l) : s.Typed :=
  h.part (nodes_subset_all hs)

end Typed

end Schema

end SchemaForge
