import SchemaForge.Proofs.GraphQL.Presence
import SchemaForge.Proofs.Schema.Properties

/-!
# Types that lowering reaches

Lowering refers to types by name and notes which of them need an entry.

* `NamedType.IsComposite`: the types that need one when they are referred to.
* `component_cases`: what lowering a type can do; `component_refs`: each of its references is
  reached or names an enum.
* `Shaped`, `Keeps`: the objects for which a selection is lowered, and the fields kept in them.
* **`Keeps.reached`**: the type of every kept field is reached.
-/

namespace SchemaForge.GraphQL

/-- The types that need an entry when they are referred to: all but scalars and enums. -/
def NamedType.IsComposite (t : NamedType) : Prop := t.kind ≠ .scalar ∧ t.kind ≠ .enum

instance (t : NamedType) : Decidable t.IsComposite :=
  inferInstanceAs (Decidable (t.kind ≠ .scalar ∧ t.kind ≠ .enum))

theorem NamedType.mem_typeNames {t : NamedType} {fields : List Field} (h : t.fields? = some fields)
    {f : Field} (hf : f ∈ fields) : f.type.name ∈ t.typeNames := by
  unfold fields? at h
  unfold typeNames
  cases hshape : t.shape <;> rw [hshape] at h <;> cases h
  · exact List.mem_append_right _ (List.mem_flatMap.mpr ⟨f, hf, List.mem_cons_self⟩)
  · exact List.mem_append_right _ (List.mem_flatMap.mpr ⟨f, hf, List.mem_cons_self⟩)
  · obtain ⟨i, hi, rfl⟩ := List.mem_map.mp hf
    exact List.mem_map_of_mem hi

namespace Lowering

open Selection

variable {c : Setting} {place : Place} {inside : List String} {s : TypeSystem} {n : String}

/-- A step of lowering reaches the type of a name. -/
abbrev Reaches {α : Type} (x : Lower α) (name : String) : Prop := Event.reach name ∈ x.log

/-! ## Wrapped types -/

theorem log_wrapped (build : NamedType → Lower Schema) : ∀ r : TypeRef,
    (wrapped s build r).log = (s.find? r.name).elim [] fun t => (build t).log
  | .nonNull r => by
    rw [wrapped, Logged.log_bind_of_forall fun _ => rfl]
    exact log_wrapped build r
  | .list r => by
    rw [wrapped, Logged.log_bind_of_forall fun _ => rfl]
    exact log_wrapped build r
  | .named name => by
    rw [wrapped, TypeRef.name]
    rcases s.find? name with _ | t
    · rfl
    · exact Logged.log_bind_of_forall fun _ => rfl

theorem wrapped_reaches {build : NamedType → Lower Schema} {r : TypeRef} :
    Reaches (wrapped s build r) n ↔ ∃ t, s.find? r.name = some t ∧ Reaches (build t) n := by
  rw [Reaches, log_wrapped]
  rcases s.find? r.name with _ | t <;> simp

/-- Where a wrapped type is lowered, the named type under it is, and refers to the same. -/
theorem wrapped_build {build : NamedType → Lower Schema} {t : NamedType} :
    ∀ {r : TypeRef} {m : Modified}, (wrapped s build r).outcome = .ok m →
      s.find? r.name = some t → ∃ x, (build t).outcome = .ok x ∧ m.schema.refs = x.refs
  | .nonNull r, m, h, hfind => by
    rw [wrapped, Logged.outcome_bind_eq_ok] at h
    obtain ⟨inner, hinner, h⟩ := h
    have hnamed : ∃ x, (build t).outcome = .ok x ∧ inner.schema.refs = x.refs :=
      wrapped_build hinner hfind
    obtain rfl := Except.ok.inj h
    exact hnamed
  | .list r, m, h, hfind => by
    rw [wrapped, Logged.outcome_bind_eq_ok] at h
    obtain ⟨inner, hinner, h⟩ := h
    have hnamed : ∃ x, (build t).outcome = .ok x ∧ inner.schema.refs = x.refs :=
      wrapped_build hinner hfind
    obtain rfl := Except.ok.inj h
    rw [Schema.refs, Modified.refs_toSchema]
    exact hnamed
  | .named name, m, h, hfind => by
    rw [TypeRef.name] at hfind
    rw [wrapped, hfind, Logged.outcome_bind_eq_ok] at h
    obtain ⟨x, hx, h⟩ := h
    obtain rfl := Except.ok.inj h
    exact ⟨x, hx, rfl⟩

/-- A wrapped type that does not exist refers to nothing. -/
theorem wrapped_unknown {build : NamedType → Lower Schema} :
    ∀ {r : TypeRef} {m : Modified}, (wrapped s build r).outcome = .ok m →
      s.find? r.name = none → m.schema.refs = []
  | .nonNull r, m, h, hfind => by
    rw [wrapped, Logged.outcome_bind_eq_ok] at h
    obtain ⟨inner, hinner, h⟩ := h
    have hnone : inner.schema.refs = [] := wrapped_unknown hinner hfind
    obtain rfl := Except.ok.inj h
    exact hnone
  | .list r, m, h, hfind => by
    rw [wrapped, Logged.outcome_bind_eq_ok] at h
    obtain ⟨inner, hinner, h⟩ := h
    have hnone : inner.schema.refs = [] := wrapped_unknown hinner hfind
    obtain rfl := Except.ok.inj h
    rw [Schema.refs, Modified.refs_toSchema]
    exact hnone
  | .named name, m, h, hfind => by
    rw [TypeRef.name] at hfind
    rw [wrapped, hfind] at h
    obtain rfl := Except.ok.inj h
    rfl

/-- **What a wrapped type refers to, the named type under it does.** -/
theorem wrapped_refs {build : NamedType → Lower Schema} {r : TypeRef} {m : Modified}
    (h : (wrapped s build r).outcome = .ok m) (hn : n ∈ m.schema.refs) :
    ∃ t x, s.find? r.name = some t ∧ (build t).outcome = .ok x ∧ n ∈ x.refs := by
  rcases hfind : s.find? r.name with _ | t
  · rw [wrapped_unknown h hfind] at hn
    cases hn
  · obtain ⟨x, hx, hrefs⟩ := wrapped_build h hfind
    exact ⟨t, x, rfl, hx, hrefs ▸ hn⟩

theorem not_scalar_reaches (scalars : Scalar.Registry) (name : String) :
    ¬ Reaches (scalar scalars name) n := by
  unfold Reaches scalar
  rcases scalars.schema? name with _ | schema
  · intro h
    rcases Logged.mem_log_bind h with h | ⟨-, -, h⟩
    · rw [Logged.log_note, List.mem_singleton] at h
      cases h
    · cases h
  · exact List.not_mem_nil

/-- A scalar refers to nothing. -/
theorem scalar_refs {scalars : Scalar.Registry} {name : String} {x : Schema}
    (h : (scalar scalars name).outcome = .ok x) : x.refs = [] := by
  rw [scalar_ok] at h
  obtain rfl := Except.ok.inj h
  unfold Scalar.Registry.schema?
  rcases scalars.find? name with _ | handler
  · rfl
  · cases handler <;> rfl

/-! ## Components -/

theorem componentNamed_reaches {t : NamedType} :
    Reaches (componentNamed c t) n ↔ n = t.name ∧ t.IsComposite := by
  unfold Reaches componentNamed NamedType.IsComposite
  by_cases hs : t.kind = .scalar
  · rw [if_pos (by rw [hs]; rfl)]
    simp [hs, not_scalar_reaches]
  · by_cases he : t.kind = .enum
    · rw [if_neg (by simpa using hs), if_pos (by rw [he]; rfl)]
      simp [he]
    · rw [if_neg (by simpa using hs), if_neg (by simpa using he),
        Logged.log_bind_of_forall fun _ => rfl, Logged.log_note]
      simp [hs, he]

theorem componentNamed_ok (t : NamedType) : ∃ x, (componentNamed c t).outcome = .ok x := by
  unfold componentNamed
  split
  · exact ⟨_, scalar_ok _ _⟩
  · split
    · exact ⟨_, rfl⟩
    · exact ⟨_, Logged.outcome_bind (Logged.outcome_note _) _⟩

theorem componentNamed_refs {t : NamedType} {x : Schema} (h : (componentNamed c t).outcome = .ok x)
    (hn : n ∈ x.refs) : n = t.name ∧ t.kind ≠ .scalar := by
  unfold componentNamed at h
  split at h
  · rw [scalar_refs h] at hn
    cases hn
  · rename_i hs
    have hx : x = .ref t.name .null := by
      split at h
      · exact (Except.ok.inj h).symm
      · rw [Logged.outcome_bind (Logged.outcome_note _)] at h
        exact (Except.ok.inj h).symm
    rw [hx, Schema.refs, List.mem_singleton] at hn
    exact ⟨hn, by simpa using hs⟩

theorem componentProperty_ok (f : Field) : ∃ p, (componentProperty c f).outcome = .ok p := by
  have hwrapped : ∃ m, (wrapped c.system (componentNamed c) f.type).outcome = .ok m :=
    wrapped_ok componentNamed_ok f.type
  obtain ⟨m, hm⟩ := hwrapped
  exact ⟨_, by rw [componentProperty, Logged.outcome_bind hm, Logged.outcome_pure]⟩

/-- A field of a component reaches its type when that is composite. -/
theorem componentProperty_reaches {f : Field} : Reaches (componentProperty c f) n ↔
    n = f.type.name ∧ ∃ t, c.system.find? n = some t ∧ t.IsComposite := by
  have hlog : (componentProperty c f).log = (wrapped c.system (componentNamed c) f.type).log :=
    Logged.log_bind_of_forall fun _ => rfl
  rw [Reaches, hlog]
  refine wrapped_reaches.trans ⟨?_, ?_⟩
  · rintro ⟨t, hfind, ht⟩
    obtain ⟨rfl, hc⟩ := componentNamed_reaches.mp ht
    have hname : t.name = f.type.name := TypeSystem.name_of_find? hfind
    exact ⟨hname, t, by rw [hname, hfind], hc⟩
  · rintro ⟨rfl, t, hfind, hc⟩
    have hname : t.name = f.type.name := TypeSystem.name_of_find? hfind
    exact ⟨t, hfind, componentNamed_reaches.mpr ⟨hname.symm, hc⟩⟩

theorem componentProperty_refs {f : Field} {p : Property Schema}
    (h : (componentProperty c f).outcome = .ok p) (hn : n ∈ p.schema.refs) :
    n = f.type.name ∧ ∃ t, c.system.find? n = some t ∧ t.kind ≠ .scalar := by
  rw [componentProperty, Logged.outcome_bind_eq_ok] at h
  obtain ⟨m, hm, h⟩ := h
  obtain rfl := Except.ok.inj h
  rw [Modified.refs_toProperty] at hn
  obtain ⟨t, x, hfind, hx, hn⟩ := wrapped_refs hm hn
  obtain ⟨rfl, hs⟩ := componentNamed_refs hx hn
  have hname : t.name = f.type.name := TypeSystem.name_of_find? hfind
  exact ⟨hname, t, by rw [hname, hfind], hs⟩

theorem propertiesOf_ok {fields : List Field} {property : Field → Lower (Property Schema)}
    (h : ∀ f ∈ fields, ∃ p, (property f).outcome = .ok p) :
    ∃ ps, (propertiesOf fields property).outcome = .ok ps := by
  obtain ⟨found, hfound, -⟩ := Logged.outcome_mapM_of_forall (R := fun _ _ => True) (l := fields)
    (f := fun f => do return (f.name, ← property f)) fun f hf => by
      obtain ⟨p, hp⟩ := h f hf
      exact ⟨(f.name, p), by rw [Logged.outcome_bind hp, Logged.outcome_pure], trivial⟩
  exact ⟨_, by rw [propertiesOf, Logged.outcome_bind hfound, Logged.outcome_pure]⟩

theorem propertiesOf_reaches {fields : List Field} {property : Field → Lower (Property Schema)}
    {ps : List (Atom × Property Schema)} (h : (propertiesOf fields property).outcome = .ok ps) :
    Reaches (propertiesOf fields property) n ↔ ∃ f ∈ fields, Reaches (property f) n := by
  obtain ⟨found, hfound, -⟩ := Logged.outcome_bind_eq_ok.mp h
  have hlog : (propertiesOf fields property).log = fields.flatMap fun f => (property f).log := by
    rw [propertiesOf, Logged.log_bind_of_forall fun _ => rfl, Logged.log_mapM hfound]
    exact List.flatMap_congr fun f _ => Logged.log_bind_of_forall fun _ => rfl
  rw [Reaches, hlog, List.mem_flatMap]

/-- Each property is the property of one of the fields. -/
theorem mem_propertiesOf {fields : List Field} {property : Field → Lower (Property Schema)}
    {ps : List (Atom × Property Schema)} (h : (propertiesOf fields property).outcome = .ok ps)
    {entry : Atom × Property Schema} (hentry : entry ∈ ps) :
    ∃ f ∈ fields, entry.1 = .str f.name ∧ (property f).outcome = .ok entry.2 := by
  obtain ⟨found, hfound, h⟩ := Logged.outcome_bind_eq_ok.mp h
  obtain rfl := Except.ok.inj h
  rcases mem_foldl_setProperty hentry with hentry | ⟨x, hx, rfl⟩
  · cases hentry
  · obtain ⟨f, hf, hprop⟩ := exists_of_mem_right (Logged.outcome_mapM_eq_ok.mp hfound) hx
    obtain ⟨p, hp, hx⟩ := Logged.outcome_bind_eq_ok.mp hprop
    obtain rfl := Except.ok.inj hx
    exact ⟨f, hf, rfl, hp⟩

/-- **What lowering a type can do.** A union reaches its members, other types reach those of their
fields, and types without parts stop it. -/
theorem component_cases (c : Setting) (t : NamedType) :
    (∃ members, t.shape = .union members ∧ (component c t).log = members.map .reach ∧
      (component c t).outcome = .ok (.union (members.map (.ref · .null)) t.description)) ∨
    (∃ fields ps, t.fields? = some fields ∧
      (propertiesOf fields (componentProperty c)).outcome = .ok ps ∧
      (component c t).log = (propertiesOf fields (componentProperty c)).log ∧
      (component c t).outcome = .ok (.object ps .unset t.description)) ∨
    (¬ t.IsComposite ∧ (component c t).log = [] ∧
      (component c t).outcome = .error .lacksPart) := by
  have hobject : ∀ fields, t.fields? = some fields → (∀ members, t.shape ≠ .union members) →
      ∃ ps, (propertiesOf fields (componentProperty c)).outcome = .ok ps ∧
        (component c t).log = (propertiesOf fields (componentProperty c)).log ∧
        (component c t).outcome = .ok (.object ps .unset t.description) := by
    intro fields hfields hunion
    obtain ⟨ps, hps⟩ : ∃ ps, (propertiesOf fields (componentProperty c)).outcome = .ok ps :=
      propertiesOf_ok fun f _ => componentProperty_ok f
    have hcomponent : component c t = do
        return .object (← propertiesOf fields (componentProperty c)) .unset t.description := by
      unfold component
      split
      · exact absurd ‹_› (hunion _)
      · rw [hfields]
    refine ⟨ps, hps, ?_, ?_⟩
    · rw [hcomponent, Logged.log_bind_of_forall fun _ => rfl]
    · rw [hcomponent, Logged.outcome_bind hps, Logged.outcome_pure]
  rcases hshape : t.shape with _ | ⟨interfaces, fields⟩ | ⟨interfaces, fields⟩ | members | values |
    fields
  · refine .inr (.inr ⟨by simp [NamedType.IsComposite, NamedType.kind, hshape], ?_⟩)
    simp [component, hshape, NamedType.fields?]
  · refine .inr (.inl ⟨fields, ?_⟩)
    have hfields : t.fields? = some fields := by rw [NamedType.fields?, hshape]
    obtain ⟨ps, hps⟩ := hobject fields hfields (by simp [hshape])
    exact ⟨ps, hfields, hps⟩
  · refine .inr (.inl ⟨fields, ?_⟩)
    have hfields : t.fields? = some fields := by rw [NamedType.fields?, hshape]
    obtain ⟨ps, hps⟩ := hobject fields hfields (by simp [hshape])
    exact ⟨ps, hfields, hps⟩
  · refine .inl ⟨members, rfl, ?_⟩
    have hmembers : (members.mapM fun name => (do
        Logged.note (.reach name)
        return Schema.ref name .null : Lower Schema)).outcome =
          .ok (members.map (.ref · .null)) := by
      rw [Logged.outcome_mapM_eq_ok, List.forall₂_map_right_iff, List.forall₂_same]
      exact fun name _ => rfl
    unfold component
    rw [hshape]
    dsimp only
    rw [Logged.log_bind_of_forall fun _ => rfl, Logged.log_mapM hmembers,
      Logged.outcome_bind hmembers, List.map_eq_flatMap]
    exact ⟨rfl, rfl⟩
  · refine .inr (.inr ⟨by simp [NamedType.IsComposite, NamedType.kind, hshape], ?_⟩)
    simp [component, hshape, NamedType.fields?]
  · have hfields : ∃ fs, t.fields? = some fs := ⟨_, by rw [NamedType.fields?, hshape]⟩
    obtain ⟨fs, hfields⟩ := hfields
    obtain ⟨ps, hps⟩ := hobject fs hfields (by simp [hshape])
    exact .inr (.inl ⟨fs, ps, hfields, hps⟩)

/-- **What a component refers to is reached, or is an enum.** -/
theorem component_refs {t : NamedType} {x : Schema} (h : (component c t).outcome = .ok x)
    (hn : n ∈ x.refs) :
    Reaches (component c t) n ∨ ∃ u, c.system.find? n = some u ∧ u.kind = .enum := by
  rcases component_cases c t with ⟨members, -, hlog, hx⟩ | ⟨fields, ps, -, hps, hlog, hx⟩ |
    ⟨-, -, hx⟩
  · rw [hx] at h
    obtain rfl := Except.ok.inj h
    left
    rw [Schema.refs_union, List.flatMap_map] at hn
    rw [Reaches, hlog]
    simpa [Schema.refs] using hn
  · rw [hx] at h
    obtain rfl := Except.ok.inj h
    rw [Schema.refs_object, Schema.refsOfExtra, List.append_nil] at hn
    obtain ⟨entry, hentry, hn⟩ := List.mem_flatMap.mp hn
    obtain ⟨f, hf, -, hp⟩ := mem_propertiesOf hps hentry
    obtain ⟨hname, u, hu, hs⟩ := componentProperty_refs hp hn
    by_cases he : u.kind = .enum
    · exact .inr ⟨u, hu, he⟩
    · left
      rw [Reaches, hlog]
      have hreach : Reaches (componentProperty c f) n :=
        componentProperty_reaches.mpr ⟨hname, u, hu, hs, he⟩
      exact (propertiesOf_reaches hps).mpr ⟨f, hf, hreach⟩
  · rw [hx] at h
    cases h

/-- What a component reaches is named by its type, and is composite or a member of a union. -/
theorem of_component_reaches {t : NamedType} (h : Reaches (component c t) n) :
    n ∈ t.typeNames ∧ ((∃ u, c.system.find? n = some u ∧ u.IsComposite) ∨
      ∃ members, t.shape = .union members ∧ n ∈ members) := by
  unfold Reaches at h
  rcases component_cases c t with ⟨members, hshape, hlog, -⟩ | ⟨fields, ps, hfields, hps, hlog, -⟩ |
    ⟨-, hlog, -⟩
  · rw [hlog] at h
    have hn : n ∈ members := by simpa using h
    exact ⟨by rw [NamedType.typeNames, hshape]; exact hn, .inr ⟨members, hshape, hn⟩⟩
  · rw [hlog] at h
    obtain ⟨f, hf, hreach⟩ := (propertiesOf_reaches hps).mp h
    obtain ⟨rfl, hu⟩ := componentProperty_reaches.mp hreach
    exact ⟨NamedType.mem_typeNames hfields hf, .inl hu⟩
  · rw [hlog] at h
    cases h

/-! ## Selections -/

variable {root t u : NamedType} {l k : List Selection} {g : Group}
  {nested : NamedType → List Selection → Lower Schema}

/-- The objects for which a selection on a type is lowered: the type of an object and what is
selected in it. -/
inductive Shaped (c : Setting) (inside : List String) (root : NamedType) (l : List Selection) :
    NamedType → List Selection → Prop
  | root {t : NamedType} : t ∈ shapeTypes c inside root l → Shaped c inside root l t l
  | field {t u : NamedType} {k : List Selection} {g : Group} :
    Shaped c inside root l t k → Leads c inside t k g u → Shaped c inside root l u g.selections

/-- A field is kept in one of the objects of a selection: the selection asks for it there, and the
type of the object has it. -/
def Keeps (c : Setting) (inside : List String) (root : NamedType) (l : List Selection)
    (f : Field) : Prop :=
  ∃ t k g, Shaped c inside root l t k ∧ g ∈ groupsOf c inside t k ∧
    g.first.name ≠ "__typename" ∧ t.field? g.first.name = some f

theorem part_reaches (h : Reaches (part c nested k t) n) :
    (n = t.name ∧ t.IsComposite) ∨ Reaches (nested t k) n := by
  unfold Reaches part at h
  split at h
  · exact absurd h (not_scalar_reaches _ _)
  · rename_i hs
    split at h
    · cases h
    · rename_i he
      rcases Logged.mem_log_bind h with h | ⟨-, -, h⟩
      · rw [Logged.log_note, List.mem_singleton] at h
        injection h with hname
        exact .inl ⟨hname, by simpa using hs, by simpa using he⟩
      · exact .inr h

theorem log_part (h : t.IsComposite) :
    (part c nested k t).log = .reach t.name :: (nested t k).log := by
  rw [part, if_neg (by simpa using h.1), if_neg (by simpa using h.2),
    Logged.log_bind (Logged.outcome_note _)]
  rfl

theorem log_property {f : Field} (hname : g.first.name ≠ "__typename")
    (hf : t.field? g.first.name = some f) : (property c place nested t g).log =
      (wrapped c.system (part c nested g.selections) f.type).log := by
  rw [property_field hname hf]
  exact Logged.log_bind_of_forall fun _ => rfl

/-- The step for a group of an object is part of the step for the object. -/
theorem property_of_shape {x : Schema} (h : (shape c place inside nested t l).outcome = .ok x)
    (hg : g ∈ groupsOf c inside t l) : ∃ p, (property c place nested t g).outcome = .ok p ∧
      (property c place nested t g).log ⊆ (shape c place inside nested t l).log := by
  obtain ⟨ps, hps, -⟩ := shape_eq_ok.mp h
  obtain ⟨p, -, hp⟩ := exists_of_mem_left hps hg
  refine ⟨p, hp, fun e he => ?_⟩
  have hmapM := Logged.outcome_mapM_eq_ok.mpr hps
  rw [shape, Logged.log_bind (forM_note_ok _ _), Logged.log_bind hmapM, Logged.log_mapM hmapM]
  refine List.mem_append_right _ (List.mem_append_left _ ?_)
  exact List.mem_flatMap.mpr ⟨g, hg, he⟩

/-- The step for the type of a field is part of the step for the field. -/
theorem part_of_property {f : Field} {p : Option (Atom × Property Schema)}
    (h : (property c place nested t g).outcome = .ok p) (hname : g.first.name ≠ "__typename")
    (hf : t.field? g.first.name = some f) (hu : c.system.find? f.type.name = some u) :
    ∃ x, (part c nested g.selections u).outcome = .ok x ∧
      (part c nested g.selections u).log ⊆ (property c place nested t g).log := by
  have hlog : (property c place nested t g).log = (part c nested g.selections u).log := by
    rw [log_property hname hf, log_wrapped, hu]
    rfl
  rw [property_field hname hf, Logged.outcome_bind_eq_ok] at h
  obtain ⟨m, hm, -⟩ := h
  obtain ⟨x, hx, -⟩ := wrapped_build hm hu
  exact ⟨x, hx, by rw [hlog]; exact List.Subset.refl _⟩

/-- The step for an object at the top is part of the step for the selection. -/
theorem shape_of_selectionWithin {depth : Nat} {x : Schema}
    (h : (selectionWithin c place inside depth root l).outcome = .ok x)
    (ht : t ∈ shapeTypes c inside root l) : ∃ below y, depth = below + 1 ∧
      (shape c place inside (selectionWithin c place inside below) t l).outcome = .ok y ∧
      (shape c place inside (selectionWithin c place inside below) t l).log ⊆
        (selectionWithin c place inside depth root l).log := by
  cases depth with
  | zero => cases h
  | succ below =>
    unfold shapeTypes at ht
    by_cases hmany : (root.isAbstract && narrows c.fragments root.name c.spreadBound inside l) = true
    · rw [if_pos hmany] at ht
      rw [selectionWithin, if_pos hmany] at h ⊢
      obtain ⟨xs, hxs, -⟩ := Logged.outcome_bind_eq_ok.mp h
      obtain ⟨y, -, hy⟩ := exists_of_mem_left (Logged.outcome_mapM_eq_ok.mp hxs) ht
      refine ⟨below, y, rfl, hy, fun e he => ?_⟩
      rw [Logged.log_bind hxs, Logged.log_mapM hxs]
      exact List.mem_append_left _ (List.mem_flatMap.mpr ⟨t, ht, he⟩)
    · rw [if_neg hmany, List.mem_singleton] at ht
      rw [ht]
      rw [selectionWithin_shape (Bool.eq_false_iff.mpr hmany)] at h ⊢
      exact ⟨below, x, rfl, h, List.Subset.refl _⟩

/-- **The step for each object of a selection is part of the step for the selection.** -/
theorem Shaped.step {depth : Nat} {x : Schema}
    (h : (selectionWithin c place inside depth root l).outcome = .ok x)
    (hs : Shaped c inside root l t k) : ∃ below y,
      (shape c place inside (selectionWithin c place inside below) t k).outcome = .ok y ∧
      (shape c place inside (selectionWithin c place inside below) t k).log ⊆
        (selectionWithin c place inside depth root l).log := by
  induction hs with
  | root ht =>
    obtain ⟨below, y, -, hy, hlog⟩ := shape_of_selectionWithin h ht
    exact ⟨below, y, hy, hlog⟩
  | field _ hleads ih =>
    obtain ⟨below, y, hy, hlog⟩ := ih
    obtain ⟨hg, hname, f, named, hf, hnamed, hscalar, henum, ht⟩ := hleads
    obtain ⟨p, hp, hlog₁⟩ := property_of_shape hy hg
    obtain ⟨z, hz, hlog₂⟩ := part_of_property hp hname hf hnamed
    rw [part_nested hscalar henum] at hz
    obtain ⟨below', y', -, hy', hlog₃⟩ := shape_of_selectionWithin hz ht
    -- the part notes its own type before all that is noted below it
    refine ⟨below', y', hy', fun e he => hlog (hlog₁ (hlog₂ ?_))⟩
    rw [log_part ⟨hscalar, henum⟩]
    exact List.mem_cons_of_mem _ (hlog₃ he)

/-- **The composite type of a kept field is reached.** -/
theorem Keeps.reached {f : Field} {x : Schema} (hk : Keeps c inside root l f)
    (h : (selection c place inside root l).outcome = .ok x)
    (hu : c.system.find? f.type.name = some u) (hc : u.IsComposite) :
    Reaches (selection c place inside root l) f.type.name := by
  obtain ⟨t, k, g, hs, hg, hname, hf⟩ := hk
  obtain ⟨below, y, hy, hlog⟩ := hs.step h
  obtain ⟨p, hp, hlog₁⟩ := property_of_shape hy hg
  obtain ⟨z, -, hlog₂⟩ := part_of_property hp hname hf hu
  refine hlog (hlog₁ (hlog₂ ?_))
  rw [log_part hc, TypeSystem.name_of_find? hu]
  exact List.mem_cons_self

theorem of_property_reaches (h : Reaches (property c place nested t g) n) :
    ∃ u, c.system.find? u.name = some u ∧
      ((n = u.name ∧ u.IsComposite) ∨ Reaches (nested u g.selections) n) := by
  unfold Reaches at h
  by_cases hname : g.first.name = "__typename"
  · rw [property, if_pos (by rw [hname]; rfl)] at h
    cases h
  · rcases hf : t.field? g.first.name with _ | f
    · rw [property, if_neg (by simpa using hname), hf] at h
      rcases Logged.mem_log_bind h with h | ⟨-, -, h⟩
      · rw [Logged.log_note, List.mem_singleton] at h
        cases h
      · cases h
    · rw [log_property hname hf] at h
      obtain ⟨u, hu, h⟩ := wrapped_reaches.mp h
      exact ⟨u, by rw [TypeSystem.name_of_find? hu, hu], part_reaches h⟩

theorem log_forM_note (f : String → Event) : ∀ names : List String,
    (names.forM fun name => (Logged.note (f name) : Lower Unit)).log = names.map f
  | [] => rfl
  | name :: names => by
    rw [List.forM_eq_forM, List.forM_cons, Logged.log_bind (Logged.outcome_note _),
      Logged.log_note, ← List.forM_eq_forM, log_forM_note f names]
    rfl

theorem of_shape_reaches (h : Reaches (shape c place inside nested t l) n) :
    ∃ g ∈ groupsOf c inside t l, Reaches (property c place nested t g) n := by
  unfold Reaches shape at h
  dsimp only at h
  rcases Logged.mem_log_bind h with h | ⟨_, -, h⟩
  · -- the fragments that do not exist are noted, not reached
    rw [log_forM_note] at h
    obtain ⟨name, -, hname⟩ := List.mem_map.mp h
    cases hname
  · rcases Logged.mem_log_bind h with h | ⟨_, -, h⟩
    · exact Logged.mem_log_mapM h
    · cases h

/-- **What a selection reaches are composite types.** -/
theorem of_selectionWithin_reaches : ∀ {depth : Nat} {root : NamedType} {l : List Selection},
    Reaches (selectionWithin c place inside depth root l) n →
      ∃ u, c.system.find? n = some u ∧ u.IsComposite
  | 0, _, _, h => by cases h
  | depth + 1, root, l, h => by
    have hshape : ∀ t, Reaches (shape c place inside (selectionWithin c place inside depth) t l) n →
        ∃ u, c.system.find? n = some u ∧ u.IsComposite := by
      intro t h
      obtain ⟨g, -, h⟩ := of_shape_reaches h
      obtain ⟨u, hu, ⟨rfl, hc⟩ | h⟩ := of_property_reaches h
      · exact ⟨u, hu, hc⟩
      · exact of_selectionWithin_reaches h
    unfold Reaches selectionWithin at h
    dsimp only at h
    split at h
    · rcases Logged.mem_log_bind h with h | ⟨xs, -, h⟩
      · obtain ⟨t, -, h⟩ := Logged.mem_log_mapM h
        exact hshape t h
      · split at h <;> cases h
    · exact hshape root h

end Lowering

end SchemaForge.GraphQL
