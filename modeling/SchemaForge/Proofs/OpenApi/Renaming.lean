import SchemaForge.OpenApi.Document
import SchemaForge.Proofs.OpenApi.Parts
import SchemaForge.Proofs.Value.Mapping

/-!
# Lowering under other names

What the components are called decides nothing but the names in references.

* `Setting.Renames`: two settings that differ in what the components are called.
* `Setting.keyed`: the setting in which every component goes by its own key.
* **`lowerWithin_renamed`**, **`entries_renamed`**: nodes and operations are lowered to the same with
  other names.
* `entries_refs`, `schema_refs`: so nothing but the names of components is referred to.
-/

namespace SchemaForge

/-- The entry with other names in its schema. -/
def Entry.rename (f : String → String) (e : Entry) : Entry :=
  Entry.of e.name (e.schema.mapRefs f) e.category

namespace OpenApi

/-- Two settings that differ in what the components are called. -/
structure Setting.Renames (f : String → String) (s t : Setting) : Prop where
  document : t.document = s.document
  scalars : t.scalars = s.scalars
  names : ∀ key, t.componentNames.lookup key = (s.componentNames.lookup key).map f

namespace Lowering

variable {f : String → String} {s t : Setting} {site : Site}

/-! ## Nodes -/

theorem mapping_congr (h : t.scalars = s.scalars) : mapping t = mapping s := by
  unfold mapping shape scalarCode?
  rw [h]

theorem mapping_renamed (h : s.Renames f t) {sub sub' : Value → Lower Modified}
    (hsub : ∀ v, sub' v = Modified.mapRefs f <$> sub v) (e : Mapping) :
    mapping t sub' e = Modified.mapRefs f <$> mapping s sub e := by
  rw [mapping_congr h.scalars]
  rcases mapping_cases s e with ⟨fault, hstop⟩ | ⟨build, hbuild, hstep⟩
  · rw [hstop, hstop]
    rfl
  · have hparts : (parts s e).mapM sub' = List.map (Modified.mapRefs f) <$> (parts s e).mapM sub := by
      rw [← Logged.mapM_map]
      congr 1
      funext v
      rw [hsub v, map_eq_pure_bind]
    rw [hstep, hstep, hparts, ← comp_map, ← comp_map]
    congr 1
    funext ms
    exact (hbuild f ms).symm

theorem target_renamed (h : s.Renames f t) (node ref : Value) :
    target t node ref = (target s node ref).map fun
      | .component name => .component (f name)
      | .node v => .node v := by
  unfold target
  rcases componentKey? ref with _ | key
  · dsimp only
    rw [h.document]
    cases Pointer.resolve s.document node <;> rfl
  · dsimp only
    rw [h.names key]
    cases s.componentNames.lookup key <;> rfl

theorem node_renamed (h : s.Renames f t) {sub sub' : Value → Lower Modified}
    (hsub : ∀ v, sub' v = Modified.mapRefs f <$> sub v) (v : Value) :
    node t site sub' v = Modified.mapRefs f <$> node s site sub v := by
  rcases v with a | items | e
  · cases a with
    | bool b => cases b <;> rfl
    | _ => rfl
  · rfl
  · unfold node
    dsimp only
    split
    · rfl
    · split
      · exact mapping_renamed h hsub e
      · unfold reference
        rw [target_renamed h]
        rcases target s (.map e) (Mapping.getD e "$ref") with (fault | error) | (name | v)
        · rfl
        · cases site <;> rfl
        · rfl
        · exact hsub v

/-- **A node is lowered to the same with other names.** -/
theorem lowerWithin_renamed (h : s.Renames f t) : ∀ depth v,
    lowerWithin t site depth v = Modified.mapRefs f <$> lowerWithin s site depth v
  | 0, _ => rfl
  | depth + 1, v => node_renamed h (lowerWithin_renamed h depth) v

theorem lower_renamed (h : s.Renames f t) (v : Value) :
    lower t site v = Modified.mapRefs f <$> lower s site v := by
  unfold lower
  rw [h.document]
  exact lowerWithin_renamed h _ v

theorem schema_renamed (h : s.Renames f t) (site : Site) (v : Value) :
    schema t site v = Schema.mapRefs f <$> schema s site v := by
  unfold schema
  rw [lower_renamed h]
  simp [Modified.mapRefs_toSchema]

end Lowering

/-! ## Operations -/

namespace Operation

variable {f : String → String} {s t : Setting}

theorem mapRefs_parameterProperty (f : String → String) (p : Parameter) (m : Modified) :
    (parameterProperty p m).mapRefs f = parameterProperty p (m.mapRefs f) := by
  unfold parameterProperty
  dsimp only
  rw [Modified.mapRefs_toProperty]
  split <;> rfl

theorem parameterProperties_renamed (h : s.Renames f t) : ∀ (ps : List Parameter) acc,
    parameterProperties t (mapProperties f acc) ps =
      mapProperties f <$> parameterProperties s acc ps
  | [], _ => rfl
  | p :: rest, acc => by
    rw [parameterProperties, parameterProperties]
    split
    · dsimp only
      rw [Lowering.lower_renamed h]
      simp only [map_eq_pure_bind, bind_assoc, pure_bind]
      simp only [← mapRefs_parameterProperty, ← mapProperties_setProperty,
        parameterProperties_renamed h rest, map_eq_pure_bind]
    · exact parameterProperties_renamed h rest acc

theorem entryOf_renamed (h : s.Renames f t) (name category : String) (node : Option Value) :
    entryOf t name category node = List.map (Entry.rename f) <$> entryOf s name category node := by
  cases node with
  | none => rfl
  | some node =>
    unfold entryOf
    dsimp only
    rw [Lowering.schema_renamed h]
    simp [Entry.rename, Entry.of]

/-- **An operation gives the same entries with other names.** -/
theorem entries_renamed (h : s.Renames f t) (op : Operation) :
    op.entries t = List.map (Entry.rename f) <$> op.entries s := by
  have hparams : ∀ ps, parameterProperties t [] ps =
      mapProperties f <$> parameterProperties s [] ps := fun ps =>
    parameterProperties_renamed h ps []
  unfold entries
  simp only [h.document, hparams, entryOf_renamed h, map_eq_pure_bind, bind_assoc, pure_bind]
  refine bind_congr fun name => bind_congr fun ps => bind_congr fun properties => ?_
  refine bind_congr fun body => bind_congr fun request => bind_congr fun success => ?_
  refine bind_congr fun response => congrArg pure ?_
  rw [List.map_append, List.map_append, List.isEmpty_map]
  congr 2
  split
  · rfl
  · exact congrArg (fun ps => [Entry.of (name ++ "Params") (.object ps .unset .null) (some "params")])
      (Schema.mapRefsOfProperties_eq f properties).symm

end Operation

/-! ## Names that stay -/

section Closed

variable {s : Setting} {site : Site}

theorem fixed_of_map_eq {α : Type} {g : α → α} {l : List α} (h : l.map g = l) :
    ∀ a ∈ l, g a = a :=
  List.map_inj_left.mp (h.trans (List.map_id l).symm)

/-- Another name for all but the components. -/
noncomputable def Setting.estrange (s : Setting) (name : String) : String :=
  open Classical in
  if ∃ key, s.componentNames.lookup key = some name then name else name ++ "'"

theorem Setting.renames_estrange (s : Setting) : s.Renames s.estrange s where
  document := rfl
  scalars := rfl
  names key := by
    rcases h : s.componentNames.lookup key with _ | name
    · rfl
    · rw [Option.map_some, estrange, if_pos ⟨key, h⟩]

theorem Setting.named_of_estrange {name : String} (h : s.estrange name = name) :
    ∃ key, s.componentNames.lookup key = some name := by
  unfold estrange at h
  by_contra hn
  rw [if_neg hn] at h
  exact absurd (congrArg String.length h) (by simp)

/-- A schema that keeps its names wherever the components keep theirs refers to components. -/
theorem Setting.named_of_mapRefs {x : Schema} (h : x.mapRefs s.estrange = x) {name : String}
    (hn : name ∈ x.refs) : ∃ key, s.componentNames.lookup key = some name := by
  have hrefs := x.refs_mapRefs s.estrange
  rw [h] at hrefs
  exact named_of_estrange (fixed_of_map_eq hrefs.symm name hn)

/-- **A schema that a node is lowered to refers to components.** -/
theorem schema_refs {v : Value} {x : Schema} (h : (Lowering.schema s site v).outcome = .ok x)
    {name : String} (hn : name ∈ x.refs) : ∃ key, s.componentNames.lookup key = some name := by
  refine Setting.named_of_mapRefs ?_ hn
  have hr := congrArg Logged.outcome (Lowering.schema_renamed s.renames_estrange site v)
  rw [map_eq_pure_bind, Logged.outcome_bind h, Logged.outcome_pure, h] at hr
  exact (Except.ok.inj hr).symm

/-- **An entry of an operation refers to components.** -/
theorem entries_refs {op : Operation} {es : List Entry} (h : (op.entries s).outcome = .ok es)
    {e : Entry} (he : e ∈ es) {name : String} (hn : name ∈ e.schema.refs) :
    ∃ key, s.componentNames.lookup key = some name := by
  refine Setting.named_of_mapRefs ?_ hn
  have hr := congrArg Logged.outcome (Operation.entries_renamed s.renames_estrange op)
  rw [map_eq_pure_bind, Logged.outcome_bind h, Logged.outcome_pure, h] at hr
  exact congrArg Entry.schema (fixed_of_map_eq (Except.ok.inj hr).symm e he)

end Closed

/-! ## Components by their keys -/

namespace Setting

/-- The setting in which every component goes by its own key. -/
def keyed (s : Setting) : Setting :=
  { s with componentNames := s.componentNames.map fun entry => (entry.1, entry.1) }

/-- What the component of a key is called. -/
def nameOf (s : Setting) (key : String) : String := (s.componentNames.lookup key).getD ""

theorem lookup_keyed (s : Setting) (key : String) :
    s.keyed.componentNames.lookup key = (s.componentNames.lookup key).map fun _ => key := by
  unfold keyed
  dsimp only
  induction s.componentNames with
  | nil => rfl
  | cons entry names ih =>
    rw [List.map_cons, lookup_cons_eq_ite, lookup_cons_eq_ite, ih]
    split
    · rename_i h
      rw [h]
      rfl
    · rfl

theorem renames_keyed (s : Setting) : s.keyed.Renames s.nameOf s where
  document := rfl
  scalars := rfl
  names key := by
    rw [lookup_keyed]
    unfold nameOf
    cases h : s.componentNames.lookup key with
    | none => rfl
    | some name => simp [h]

theorem isSome_of_keyed {s : Setting} {name : String}
    (h : ∃ key, s.keyed.componentNames.lookup key = some name) :
    (s.componentNames.lookup name).isSome := by
  obtain ⟨key, hk⟩ := h
  rw [lookup_keyed] at hk
  obtain ⟨x, hx, rfl⟩ := Option.map_eq_some_iff.mp hk
  rw [hx]
  rfl

end Setting

/-- **By its own key** a component is what a reference with the key stands for. -/
theorem Lowering.target_keyed {s : Setting} {node ref : Value} {key : String} :
    target s.keyed node ref = .ok (.component key) ↔
      componentKey? ref = some key ∧ (s.componentNames.lookup key).isSome := by
  unfold target
  rcases componentKey? ref with _ | k
  · dsimp only
    cases Pointer.resolve s.keyed.document node <;> simp [Except.map]
  · dsimp only
    rw [Setting.lookup_keyed]
    rcases hk : s.componentNames.lookup k with _ | name
    · simp only [Option.map_none, reduceCtorEq, false_iff, not_and]
      rintro ⟨⟩
      simp [hk]
    · simp only [Option.map_some, Except.ok.injEq, Target.component.injEq, Option.some.injEq,
        iff_self_and]
      rintro rfl
      rw [hk]
      rfl

end OpenApi

end SchemaForge
