import SchemaForge.Proofs.Logged
import SchemaForge.Proofs.OpenApi.Naming

/-!
# Components of an accepted document

* `Within`: a value stands in another one, which bounds its size.
* `Description.component?`: the node of a component; `Description.named?`: the schema of the
  component that has a name.
* `component_named`: each component has a name, under which its own schema is found.
-/

namespace SchemaForge

/-- A value stands in another one, or is it. -/
inductive Within (v : Value) : Value → Prop
  | self : Within v v
  | list {w : Value} {items : List Value} : w ∈ items → Within v w → Within v (.list items)
  | map {entry : Atom × Value} {entries : Mapping} :
    entry ∈ entries → Within v entry.2 → Within v (.map entries)

theorem Within.size_le {v w : Value} (h : Within v w) : v.size ≤ w.size := by
  induction h with
  | self => exact Nat.le_refl _
  | list hm _ ih =>
    have := Value.size_le_sizeItems hm
    rw [Value.size]
    omega
  | map hm _ ih =>
    have := Mapping.size_le_sizeEntries hm
    rw [Value.size]
    omega

theorem within_getD {e : Mapping} {k : String} (h : (e.getD k).isGiven = true) :
    Within (e.getD k) (.map e) := by
  rcases hk : e.get? k with _ | v
  · rw [Mapping.getD_eq_null hk] at h
    cases h
  · rw [Mapping.getD_eq hk]
    exact .map (Mapping.mem_of_get? hk) .self

theorem Within.trans {u v w : Value} (h : Within u v) (h' : Within v w) : Within u w := by
  induction h' with
  | self => exact h
  | list hm _ ih => exact .list hm ih
  | map hm _ ih => exact .map hm ih

namespace OpenApi

/-! ## What accepting a document leaves -/

theorem mappingAt_eq_ok {e m : Mapping} {k : String} {r : Refusal} (h : mappingAt e k r = .ok m) :
    m = [] ∨ Within (.map m) (.map e) := by
  unfold mappingAt at h
  split at h
  · rename_i m' hm
    cases h
    cases m with
    | nil => exact .inl rfl
    | cons x m =>
      refine .inr ?_
      rw [← hm]
      exact within_getD (by rw [hm]; rfl)
  · split at h
    · cases h
    · cases h
      exact .inl rfl

namespace Description

/-- What accepting a document gives. -/
theorem ofDocument_eq {document : Value} {c : Choices} {d : Description}
    (h : ofDocument document c = .ok d) : ∃ entries components kept scalars keys,
      document = .map entries ∧
      mappingAt entries "components" .componentsNotMapping = .ok components ∧
      componentKeys d.components = .ok keys ∧
      d = {
        setting := { document, scalars, componentNames := (keys.foldl Naming.add {}).names }
        paths := kept
        components := if (Mapping.getD components "schemas").isGiven
          then Mapping.getD components "schemas" else .map []
        notes := (keys.foldl Naming.add {}).notes } := by
  unfold ofDocument at h
  obtain ⟨entries, rfl⟩ : ∃ entries, document = .map entries := by
    cases document with
    | map entries => exact ⟨entries, rfl⟩
    | _ => cases h
  dsimp only [bind, Except.bind] at h
  split at h
  rotate_left
  · cases h
  change mappingAt _ _ _ >>= _ = _ at h
  obtain ⟨paths, -, h⟩ := except_bind_eq_ok.mp h
  obtain ⟨components, hcomponents, h⟩ := except_bind_eq_ok.mp h
  obtain ⟨kept, -, h⟩ := except_bind_eq_ok.mp h
  obtain ⟨scalars, -, h⟩ := except_bind_eq_ok.mp h
  obtain ⟨keys, hkeys, h⟩ := except_bind_eq_ok.mp h
  obtain rfl := Except.ok.inj h
  exact ⟨entries, components, kept, scalars, keys, rfl, hcomponents, mapError_eq_ok.mp hkeys, rfl⟩

/-- What an accepted document leaves of itself: the components stand in it, and their keys are
named one after another. -/
theorem ofDocument_spec {document : Value} {c : Choices} {d : Description}
    (h : ofDocument document c = .ok d) : d.setting.document = document ∧
      (∃ keys, componentKeys d.components = .ok keys ∧
        d.setting.componentNames = (keys.foldl Naming.add {}).names) ∧
      (d.components = .map [] ∨ Within d.components document) := by
  obtain ⟨entries, components, kept, scalars, keys, rfl, hcomponents, hkeys, rfl⟩ :=
    ofDocument_eq h
  refine ⟨rfl, ⟨keys, hkeys, rfl⟩, ?_⟩
  dsimp only
  split_ifs with hg
  · refine .inr ((within_getD hg).trans ?_)
    rcases mappingAt_eq_ok hcomponents with rfl | hw
    · cases hg
    · exact hw
  · exact .inl rfl

theorem notes_add (n : Naming) (key : String) : ∃ notes, (n.add key).notes = n.notes ++ notes ∧
    ∀ note ∈ notes, ∃ owner name unique, note = .componentRenamed owner key name unique := by
  rw [Naming.add]
  split
  · exact ⟨[], (List.append_nil _).symm, fun _ h => absurd h List.not_mem_nil⟩
  · exact ⟨_, rfl, List.forall_mem_singleton.mpr ⟨_, _, _, rfl⟩⟩

theorem notes_foldl_add (keys : List String) : ∀ n : Naming,
    (∀ note ∈ n.notes, ∃ owner key name unique, note = .componentRenamed owner key name unique) →
    ∀ note ∈ (keys.foldl Naming.add n).notes,
      ∃ owner key name unique, note = .componentRenamed owner key name unique := by
  induction keys with
  | nil => exact fun n h => h
  | cons k keys ih =>
    refine fun n h => ih (n.add k) fun note hn => ?_
    obtain ⟨notes, hnotes, hall⟩ := notes_add n k
    rw [hnotes, List.mem_append] at hn
    rcases hn with hn | hn
    · exact h note hn
    · obtain ⟨owner, name, unique, rfl⟩ := hall note hn
      exact ⟨owner, k, name, unique, rfl⟩

/-- An accepted document has no entries yet, and its notes are about the names of components. -/
theorem ofDocument_fresh {document : Value} {c : Choices} {d : Description}
    (h : ofDocument document c = .ok d) : d.taken = [] ∧
      ∀ note ∈ d.notes, ∃ owner key name unique,
        note = .componentRenamed owner key name unique := by
  obtain ⟨entries, components, kept, scalars, keys, -, -, -, rfl⟩ := ofDocument_eq h
  exact ⟨rfl, notes_foldl_add keys {} fun _ h => absurd h List.not_mem_nil⟩

/-! ## Components -/

/-- The node of a component. -/
def component? (d : Description) (key : String) : Option Value :=
  match d.components with
  | .map entries => Mapping.get? entries key
  | _ => none

/-- The schema of the component that has a name. -/
def named? (d : Description) (name : String) : Option Schema :=
  match d.components with
  | .map entries =>
    (entries.find? fun entry => d.setting.componentNames.lookup entry.1.display == some name).bind
      fun entry =>
        (Lowering.schema d.setting (.component entry.1.display) entry.2).outcome.toOption
  | _ => none

variable {document : Value} {c : Choices} {d : Description}

theorem component?_within (h : ofDocument document c = .ok d) {key : String} {node : Value}
    (hk : d.component? key = some node) : Within node document := by
  obtain ⟨-, -, hc⟩ := ofDocument_spec h
  unfold component? at hk
  split at hk
  · rename_i entries he
    rw [he] at hc
    rcases hc with hc | hc
    · cases hc
      cases hk
    · exact Within.trans (.map (Mapping.mem_of_get? hk) .self) hc
  · cases hk

theorem mapM_componentKey {entries : Mapping} {keys : List String}
    (h : componentKeys (.map entries) = .ok keys) : entries.map (·.1) = keys.map .str := by
  rw [componentKeys] at h
  induction entries generalizing keys with
  | nil =>
    rw [List.mapM_nil] at h
    rw [← Except.ok.inj h]
    rfl
  | cons entry entries ih =>
    rw [List.mapM_cons] at h
    obtain ⟨key, hkey, h⟩ := except_bind_eq_ok.mp h
    obtain ⟨rest, hrest, h⟩ := except_bind_eq_ok.mp h
    obtain rfl := Except.ok.inj h
    rw [List.map_cons, List.map_cons, ih hrest]
    unfold componentKey at hkey
    split at hkey
    · rename_i s hs
      cases hkey
      rw [Value.atom.inj hs]
    · cases hkey

theorem find?_named {entries : Mapping} (names : String → Option String) {key name : String}
    {node : Value} (hname : names key = some name) (hinj : ∀ k, names k = some name → k = key)
    (hstr : ∀ entry ∈ entries, ∃ k, entry.1 = .str k) (hk : Mapping.get? entries key = some node) :
    List.find? (fun entry => names entry.1.display == some name) entries =
      some (.str key, node) := by
  induction entries with
  | nil => cases hk
  | cons e entries ih =>
    obtain ⟨k, hek⟩ := hstr e List.mem_cons_self
    obtain ⟨a, w⟩ := e
    obtain rfl : a = .str k := hek
    rw [Mapping.get?_cons] at hk
    rw [List.find?_cons]
    by_cases h : k = key
    · rw [h, if_pos rfl] at hk
      rw [h, Option.some.inj hk]
      simp [Atom.display, hname]
    · rw [if_neg (by simpa using h)] at hk
      have hne : (names (Atom.str k).display == some name) = false := by
        rw [beq_eq_false_iff_ne]
        exact fun hn => h (hinj k hn)
      rw [hne]
      exact ih (fun e he => hstr e (List.mem_cons_of_mem _ he)) hk

/-- **Each component has a name, and under the name its own schema is found.** -/
theorem component_named (h : ofDocument document c = .ok d) {key : String} {node : Value}
    (hk : d.component? key = some node) : ∃ name,
      d.setting.componentNames.lookup key = some name ∧
        d.named? name =
          (Lowering.schema d.setting (.component key) node).outcome.toOption := by
  obtain ⟨-, ⟨keys, hkeys, hnames⟩, -⟩ := ofDocument_spec h
  obtain ⟨entries, he⟩ : ∃ entries, d.components = .map entries := by
    unfold component? at hk
    split at hk
    · exact ⟨_, ‹_›⟩
    · cases hk
  rw [component?, he] at hk
  rw [he] at hkeys
  have hstr := mapM_componentKey hkeys
  obtain ⟨hdist, hall⟩ := distinct_foldl_add keys {} ⟨List.nodup_nil, by simp⟩
  have hmem : key ∈ keys := by
    have := List.mem_map_of_mem (f := (·.1)) (Mapping.mem_of_get? hk)
    rw [hstr] at this
    obtain ⟨k, hk', heq⟩ := List.mem_map.mp this
    cases heq
    exact hk'
  obtain ⟨name, hname⟩ := Option.isSome_iff_exists.mp (hall key (.inl hmem))
  rw [← hnames] at hname
  refine ⟨name, hname, ?_⟩
  rw [named?, he]
  dsimp only
  rw [find?_named (fun k => d.setting.componentNames.lookup k) hname (fun k hk => ?_)
    (fun entry hentry => ?_) hk]
  · rfl
  · rw [hnames] at hk hname
    exact hdist.key_eq hk hname
  · have := List.mem_map_of_mem (f := (·.1)) hentry
    rw [hstr] at this
    obtain ⟨k, -, heq⟩ := List.mem_map.mp this
    exact ⟨k, heq.symm⟩

end Description

end OpenApi

end SchemaForge
