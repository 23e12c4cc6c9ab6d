import SchemaForge.Proofs.GraphQL.Queue

/-!
# What variables refer to

The variables of an operation refer to the types that they are declared with, whatever these are.
Enums and input objects have entries, unless their names are reserved. Any other type has an entry
only where selections happen to reach it.

* `Emitted`: the names for which there is an entry when a compilation ends.
* **`run_variables`**: the entry of the variables of an operation, and which of its references have
  entries.
* `kinds_dangling`: a reference to an enum that has no entry.
-/

namespace SchemaForge.GraphQL.Session

open Lowering Selection

variable {documents : List Document} {system : TypeSystem}
  {scalars : List (String × String)} {library : Option String} {s s' : Session}

/-- The names for which there is an entry: those of enums and input objects that are not reserved,
those that were reached, and those that fragments and operations have taken. -/
def Emitted (s : Session) (n : String) : Prop :=
  (∃ t ∈ s.system.types, t.name = n ∧ t.isReserved = false ∧
    (t.kind = .enum ∨ t.kind = .inputObject)) ∨
  n ∈ s.reached ∨
  ∃ e ∈ s.result.entries, e.name = n ∧
    (e.category = some "fragment" ∨ e.category = some "variables" ∨ e.category = some "response")

/-- **The name of a type is that of an entry when it is emitted.** -/
theorem mem_result_iff_emitted (hs : s.Finished) {n : String} {t : NamedType}
    (ht : s.system.find? n = some t) :
    (∃ e ∈ s.result.entries, e.name = n) ↔ s.Emitted n := by
  constructor
  · rintro ⟨e, he, rfl⟩
    obtain ⟨o, ho, x, -, hof⟩ := hs.origin e (hs.mem_result.mp he)
    have hname : e.name = o.name := by rw [hof]; rfl
    have hcategory : e.category = some o.category := by rw [hof]; rfl
    rw [Emitted, hname]
    rcases List.mem_append.mp ho with ho | ho
    · rcases mem_firstOffers.mp ho with ⟨u, hu, hfree, ho | ho⟩ | ⟨f, -, ho⟩ | ⟨op, -, ho⟩
      · obtain ⟨values, hshape, rfl⟩ := enumOffers_spec ho
        exact .inl ⟨u, hu, rfl, hfree, .inl (by rw [NamedType.kind, hshape])⟩
      · obtain ⟨hkind, rfl⟩ := inputOffers_spec ho
        exact .inl ⟨u, hu, rfl, hfree, .inr hkind⟩
      · obtain ⟨u, -, rfl⟩ := fragmentOffers_spec.mp ho
        exact .inr (.inr ⟨e, he, hname, .inl hcategory⟩)
      · obtain ⟨name, root, -, -, ⟨-, rfl⟩ | rfl⟩ := operationOffers_spec.mp ho
        · exact .inr (.inr ⟨e, he, hname, .inr (.inl hcategory)⟩)
        · exact .inr (.inr ⟨e, he, hname, .inr (.inr hcategory)⟩)
    · obtain ⟨name, hreached, ho⟩ := List.mem_flatMap.mp ho
      obtain ⟨u, -, rfl⟩ := componentOffers_spec.mp ho
      exact .inr (.inl hreached)
  · have hentry : n ∈ s.names → ∃ e ∈ s.result.entries, e.name = n := by
      intro hn
      obtain ⟨e, he, hname⟩ := List.mem_map.mp hn
      exact ⟨e, hs.mem_result.mpr he, hname⟩
    rintro (⟨u, hu, rfl, hfree, hkind⟩ | hreached | ⟨e, he, hname, -⟩)
    · refine hentry ?_
      have hoffer : ∃ o ∈ enumOffers u ++ inputOffers s.setting u, o.name = u.name := by
        rcases hkind with hkind | hkind
        · unfold NamedType.kind at hkind
          unfold enumOffers
          rcases hshape : u.shape <;> rw [hshape] at hkind <;> cases hkind
          exact ⟨_, List.mem_append_left _ (List.mem_singleton_self _), rfl⟩
        · unfold inputOffers
          rw [if_pos (by rw [hkind]; rfl)]
          exact ⟨_, List.mem_append_right _ (List.mem_singleton_self _), rfl⟩
      obtain ⟨o, ho, hname⟩ := hoffer
      rw [← hname]
      refine hs.taken o (List.mem_append_left _ ?_)
      exact mem_firstOffers.mpr (.inl ⟨u, hu, hfree, List.mem_append.mp ho⟩)
    · have ho : ⟨n, "component", component s.setting t⟩ ∈ componentOffers s.setting n :=
        componentOffers_spec.mpr ⟨t, ht, rfl⟩
      exact hentry (hs.taken _ (List.mem_append_right _ (List.mem_flatMap.mpr ⟨n, hreached, ho⟩)))
    · exact ⟨e, he, hname⟩

theorem operation_of_variables {o : Offer} (ho : o ∈ s.offers)
    (hcategory : o.category = "variables") :
    ∃ op ∈ s.documents.flatMap Document.operations, ∃ name, op.name = some name ∧
      o = ⟨Name.variablesType op.kind name, "variables",
        inputs s.setting (.operation op.kind name) op.inputs⟩ := by
  rcases List.mem_append.mp ho with ho | ho
  · rcases mem_firstOffers.mp ho with ⟨t, -, -, ho | ho⟩ | ⟨f, -, ho⟩ | ⟨op, hop, ho⟩
    · obtain ⟨values, -, rfl⟩ := enumOffers_spec ho
      exact absurd hcategory (by decide : "enum" ≠ "variables")
    · obtain ⟨-, rfl⟩ := inputOffers_spec ho
      exact absurd hcategory (by decide : "input" ≠ "variables")
    · obtain ⟨t, -, rfl⟩ := fragmentOffers_spec.mp ho
      exact absurd hcategory (by decide : "fragment" ≠ "variables")
    · obtain ⟨name, root, hname, -, ⟨-, rfl⟩ | rfl⟩ := operationOffers_spec.mp ho
      · exact ⟨op, hop, name, hname, rfl⟩
      · exact absurd hcategory (by decide : "response" ≠ "variables")
  · obtain ⟨name, -, ho⟩ := List.mem_flatMap.mp ho
    obtain ⟨t, -, rfl⟩ := componentOffers_spec.mp ho
    exact absurd hcategory (by decide : "component" ≠ "variables")

/-- **Main statement.** An entry of variables is an object with a property for each variable of an
operation whose type is known; the other variables are noted. Each reference in it is the type of a
variable that is no scalar, and there is an entry of that name exactly when the name is emitted. -/
theorem run_variables (h : start system documents scalars library = .ok s) (hrun : s.run = .ok s')
    {e : Entry} (he : e ∈ s'.result.entries) (hcategory : e.category = some "variables") :
    ∃ op ∈ documents.flatMap Document.operations, ∃ name properties,
      op.name = some name ∧ e.name = Name.variablesType op.kind name ∧
      e.schema = .object properties .unset .null ∧
      (∀ entry ∈ properties, ∃ v ∈ op.inputs,
        entry.1 = .str v.name ∧ system.knows v.type = true) ∧
      (∀ v ∈ op.inputs, system.knows v.type = true → Atom.str v.name ∈ properties.map (·.1)) ∧
      (∀ v ∈ op.inputs, system.knows v.type = false →
        .unknownVariableType v.name (.operation op.kind name) ∈ s'.notes) ∧
      ∀ n ∈ e.schema.refs, (∃ v ∈ op.inputs, v.type.name = n) ∧
        (∃ t, system.find? n = some t ∧ t.kind ≠ .scalar) ∧
        ((∃ e' ∈ s'.result.entries, e'.name = n) ↔ s'.Emitted n) := by
  obtain ⟨-, hsetting, hdocuments, hserved⟩ := run_served h hrun
  have hsystem : s'.setting.system = system := by
    rw [hsetting]
    exact (findFragments_spec s).1.trans (start_spec h).1
  obtain ⟨o, ho, x, hx, rfl⟩ := hserved.origin e (hserved.mem_result.mp he)
  obtain ⟨op, hop, name, hname, rfl⟩ := operation_of_variables ho (Option.some.inj hcategory)
  obtain ⟨properties, hproperties, hfrom, hknown, hunknown⟩ :=
    inputs_spec s'.setting (.operation op.kind name) op.inputs
  have hschema : x = .object properties .unset .null := by
    rw [hproperties] at hx
    exact (Except.ok.inj hx).symm
  rw [hsystem] at hfrom hknown hunknown
  rw [hdocuments] at hop
  refine ⟨op, hop, name, properties, hname, rfl, hschema, fun entry hentry => ?_, hknown,
    fun v hv hv' => hserved.noted _ ho _ (hunknown v hv hv'), fun n hn => ?_⟩
  · obtain ⟨v, hv, hkey, hv', -⟩ := hfrom entry hentry
    exact ⟨v, hv, hkey, hv'⟩
  · have hn : n ∈ x.refs := hn
    rw [hschema, Schema.refs_object, Schema.refsOfExtra, List.append_nil] at hn
    obtain ⟨entry, hentry, hn⟩ := List.mem_flatMap.mp hn
    obtain ⟨v, hv, -, -, hrefs⟩ := hfrom entry hentry
    obtain ⟨hn, t, ht, hscalar⟩ := hrefs n hn
    have hfind : s'.system.find? n = some t := by
      rw [← ht, ← hsystem]
      rfl
    exact ⟨⟨v, hv, hn.symm⟩, ⟨t, ht, hscalar⟩, mem_result_iff_emitted hserved hfind⟩

/-! ## Sizes and kinds -/

/-- A type system with an enum, and with one of the enums by which type systems are described. -/
def kindSystem : TypeSystem where
  types := [
    { name := "Query", shape := .object [] [{ name := "a", type := .named "Int" }] },
    { name := "Size", shape := .enum ["SMALL", "LARGE"] }, { name := "Int", shape := .scalar },
    { name := "__TypeKind", shape := .enum ["SCALAR", "OBJECT"] }]
  roots := [(.query, "Query")]

/-- An operation with a variable for each enum and one of no type. -/
def kindDocument : Document := [
  .operation {
    kind := .query, name := some "Kinds", directives := []
    inputs := [
      { name := "size", type := .named "Size", default := none, directives := [] },
      { name := "kind", type := .named "__TypeKind", default := none, directives := [] },
      { name := "gone", type := .named "Gone", default := none, directives := [] }]
    selections := [.field none "a" [] [] []] }]

/-- A variable refers to an enum that has an entry, and one of no type is noted. -/
theorem run_sizes : ∃ s s' e, start kindSystem [kindDocument] [] none = .ok s ∧
    s.run = .ok s' ∧ e ∈ s'.result.entries ∧ e.category = some "variables" ∧
    .unknownVariableType "gone" (.operation .query "Kinds") ∈ s'.notes ∧
    "Size" ∈ e.schema.refs ∧ ∃ e' ∈ s'.result.entries, e'.name = "Size" := by
  obtain ⟨s, s', e, hs, hrun, hsystem, hnames, he, hcategory, hrefs⟩ : ∃ s s' e,
      start kindSystem [kindDocument] [] none = .ok s ∧ s.run = .ok s' ∧
      s'.system = kindSystem ∧ s'.names = ["Size", "KindsQueryVariables", "KindsQuery"] ∧
      e ∈ s'.entries ∧ e.category = some "variables" ∧ "Size" ∈ e.schema.refs :=
    ⟨_, _, _, rfl, rfl, rfl, rfl, .tail _ (.head _), rfl, .head _⟩
  have hd : (s'.entries.map (·.name)).Nodup := by
    rw [← names, hnames]
    decide
  have hmem : e ∈ s'.result.entries := (Entry.sort_perm hd).mem_iff.mpr he
  obtain ⟨op, hop, name, properties, hname, -, -, -, -, hnoted, hentries⟩ :=
    run_variables hs hrun hmem hcategory
  obtain rfl := List.mem_singleton.mp hop
  obtain rfl := Option.some.inj hname
  refine ⟨s, s', e, hs, hrun, hmem, hcategory, ?_, hrefs, (hentries "Size" hrefs).2.2.mpr (.inl ?_)⟩
  · exact hnoted _ (List.mem_cons_of_mem _ (List.mem_cons_of_mem _ (List.mem_singleton_self _))) rfl
  · rw [hsystem]
    exact ⟨kindSystem.types[1], List.getElem_mem _, rfl, rfl, .inl rfl⟩

/-- **A variable refers to an enum that has no entry,** and nothing is said of it. -/
theorem kinds_dangling : ∃ s s', start kindSystem [kindDocument] [] none = .ok s ∧
    s.run = .ok s' ∧ s'.notes = [.unknownVariableType "gone" (.operation .query "Kinds")] ∧
    ∃ e ∈ s'.result.entries, e.category = some "variables" ∧ "__TypeKind" ∈ e.schema.refs ∧
      ∀ e' ∈ s'.result.entries, e'.name ≠ "__TypeKind" := by
  obtain ⟨s, s', e, hs, hrun, hnotes, hnames, he, hcategory, hrefs⟩ : ∃ s s' e,
      start kindSystem [kindDocument] [] none = .ok s ∧ s.run = .ok s' ∧
      s'.notes = [.unknownVariableType "gone" (.operation .query "Kinds")] ∧
      s'.names = ["Size", "KindsQueryVariables", "KindsQuery"] ∧
      e ∈ s'.entries ∧ e.category = some "variables" ∧ "__TypeKind" ∈ e.schema.refs :=
    ⟨_, _, _, rfl, rfl, rfl, rfl, .tail _ (.head _), rfl, .tail _ (.head _)⟩
  have hd : (s'.entries.map (·.name)).Nodup := by
    rw [← names, hnames]
    decide
  refine ⟨s, s', hs, hrun, hnotes, e, (Entry.sort_perm hd).mem_iff.mpr he, hcategory, hrefs, ?_⟩
  intro e' he' hname
  have hmem : e'.name ∈ s'.names := List.mem_map_of_mem ((Entry.sort_perm hd).mem_iff.mp he')
  rw [hname, hnames] at hmem
  exact absurd hmem (by decide)

end SchemaForge.GraphQL.Session
