import SchemaForge.Proofs.Entry.Sort
import SchemaForge.Proofs.GraphQL.Inputs
import SchemaForge.Proofs.GraphQL.Nesting
import SchemaForge.Proofs.GraphQL.Offers

/-!
# The types that are reached

The names of types that need an entry are handled in the order in which they were reached, and
handling one may reach further ones. Each is reached once, so the queue comes to an end.

* `addComponents_queue`: the queue handles each name of the final session once, in order.
* `firstOffers_error`: what can stop a compilation before the queue.
* `Finished`: all offers have been served; `run_served`: after a compilation they have.
* `Complete`: every type that is referred to has an entry of its own.
* **`run_complete`**: a compilation ends, and then it is complete.
-/

namespace SchemaForge.GraphQL

open Lowering Selection

namespace Session

variable {c : Setting} {s s' : Session} {name n : String} {names : List String}

/-! ## The queue -/

/-- **What handling a name does.** -/
theorem addComponent_spec (h : s.addComponent name = .ok s') :
    s'.setting = s.setting ∧ s.reached <+: s'.reached ∧ (s.reached.Nodup → s'.reached.Nodup) ∧
      ∀ n ∈ s'.reached, n ∈ s.reached ∨
        ∃ t, s.system.find? name = some t ∧ Reaches (component s.setting t) n := by
  unfold addComponent at h
  rcases hfind : s.system.find? name with _ | t
  · rw [hfind] at h
    obtain rfl := Except.ok.inj h
    exact ⟨rfl, List.prefix_refl _, id, fun n hn => .inl hn⟩
  · rw [hfind] at h
    have hserve : s.serve ⟨name, "component", component s.setting t⟩ = .ok s' := h
    obtain ⟨x, -, rfl⟩ := serve_eq_ok.mp hserve
    have habs := absorbs s (component s.setting t).log
    rw [addEntry_reached, addEntry_setting]
    refine ⟨habs.setting, habs.grows, habs.nodup, fun n hn => ?_⟩
    exact ((habs.reached n).mp hn).imp_right fun hr => ⟨t, rfl, hr⟩

theorem addComponent_eq_error {e : Fault} (h : s.addComponent name = .error e) :
    ∃ t, s.system.find? name = some t ∧ (component s.setting t).outcome = .error e := by
  unfold addComponent at h
  rcases hfind : s.system.find? name with _ | t
  · rw [hfind] at h
    cases h
  · rw [hfind] at h
    have hserve : s.serve ⟨name, "component", component s.setting t⟩ = .error e := h
    exact ⟨t, rfl, serve_eq_error hserve⟩

/-- **The queue comes to an end.** The names that are reached are distinct and among the names of a
list, so the steps are never used up; each name of the final session was handled once, in order. -/
theorem addComponents_queue : ∀ {steps place : Nat} {s : Session},
    s.reached.Nodup → s.reached ⊆ names → (∀ t ∈ s.system.types, t.typeNames ⊆ names) →
    place ≤ s.reached.length → names.length < steps + place →
    addComponents steps place s = .ok s' →
      s.reached <+: s'.reached ∧ (s'.reached.drop place).foldlM addComponent s = .ok s'
  | 0, place, s, hd, hsub, _, hplace, hsteps, _ => by
    -- there are more steps left than names that could still be reached
    have hlength : s.reached.length ≤ names.length := (hd.subperm hsub).length_le
    omega
  | steps + 1, place, s, hd, hsub, htypes, hplace, hsteps, h => by
    rw [addComponents] at h
    rcases hname : s.reached[place]? with _ | name
    · rw [hname] at h
      obtain rfl := Except.ok.inj h
      have hend : s.reached.length ≤ place := List.getElem?_eq_none_iff.mp hname
      rw [List.drop_of_length_le hend]
      exact ⟨List.prefix_refl _, rfl⟩
    · rw [hname] at h
      obtain ⟨s₁, hs₁, h⟩ := except_bind_eq_ok.mp h
      obtain ⟨hsetting, hgrows, hnodup, hnew⟩ := addComponent_spec hs₁
      have hsystem : s₁.system = s.system := congrArg Setting.system hsetting
      have hlt : place < s.reached.length := (List.getElem?_eq_some_iff.mp hname).1
      have hsub₁ : s₁.reached ⊆ names := by
        intro n hn
        rcases hnew n hn with hn | ⟨t, ht, hr⟩
        · exact hsub hn
        · exact htypes t (TypeSystem.mem_of_find? ht) (of_component_reaches hr).1
      obtain ⟨hgrows', hfold⟩ := addComponents_queue (hnodup hd) hsub₁ (by rwa [hsystem])
        (Nat.le_trans hlt hgrows.length_le) (by omega) h
      have hgrown : s.reached <+: s'.reached := hgrows.trans hgrows'
      have hget : s'.reached[place]? = some name := by
        rw [← hname]
        exact (List.prefix_iff_getElem?.mp hgrown place hlt).trans
          (List.getElem?_eq_getElem hlt).symm
      obtain ⟨hlt', hget⟩ := List.getElem?_eq_some_iff.mp hget
      refine ⟨hgrown, ?_⟩
      rw [List.drop_eq_getElem_cons hlt', hget, List.foldlM_cons, hs₁]
      exact hfold

/-- Where the queue stops, a type that was reached has no parts. What is known of the names that are
reached first, and passes on to those reached from them, is known of its name. -/
theorem addComponents_error {Good : String → Prop} {e : Fault}
    (hgood : ∀ name t, Good name → c.system.find? name = some t →
      ∀ n, Reaches (component c t) n → Good n) :
    ∀ {steps place : Nat} {s : Session}, s.setting = c → (∀ n ∈ s.reached, Good n) →
      addComponents steps place s = .error e →
        e = .lacksPart ∧ ∃ name t, Good name ∧ c.system.find? name = some t ∧ ¬ t.IsComposite
  | 0, place, s, _, _, h => by cases h
  | steps + 1, place, s, hs, hreached, h => by
    rw [addComponents] at h
    rcases hname : s.reached[place]? with _ | name
    · rw [hname] at h
      cases h
    · rw [hname] at h
      have hmem : name ∈ s.reached := List.mem_of_getElem? hname
      rcases except_bind_eq_error.mp h with h | ⟨s₁, hs₁, h⟩
      · obtain ⟨t, ht, he⟩ := addComponent_eq_error h
        rw [hs] at he
        have hfind : c.system.find? name = some t := by rw [← hs]; exact ht
        rcases component_cases c t with ⟨_, -, -, hok⟩ | ⟨_, _, -, -, -, hok⟩ | ⟨hnot, -, herror⟩
        · rw [hok] at he
          cases he
        · rw [hok] at he
          cases he
        · rw [herror] at he
          exact ⟨(Except.error.inj he).symm, name, t, hreached name hmem, hfind, hnot⟩
      · obtain ⟨hsetting, -, -, hnew⟩ := addComponent_spec hs₁
        refine addComponents_error hgood (hsetting.trans hs) (fun n hn => ?_) h
        rcases hnew n hn with hn | ⟨t, ht, hr⟩
        · exact hreached n hn
        · rw [hs] at hr
          exact hgood name t (hreached name hmem) (by rw [← hs]; exact ht) n hr

end Session

/-! ## Before the queue -/

variable {c : Setting} {documents : List Document} {o : Offer}

/-- The offers before the queue: those of enums and input objects that are not reserved, of fragments
and of operations. -/
theorem mem_firstOffers : o ∈ firstOffers c documents ↔
    (∃ t ∈ c.system.types, t.isReserved = false ∧ (o ∈ enumOffers t ∨ o ∈ inputOffers c t)) ∨
      (∃ f ∈ c.fragments, o ∈ fragmentOffers c f) ∨
      ∃ op ∈ documents.flatMap Document.operations, o ∈ operationOffers c op := by
  simp only [firstOffers, List.mem_append, List.mem_flatMap (b := o), List.mem_filter,
    Bool.not_eq_true', and_assoc, or_assoc, ← exists_or, ← and_or_left]

theorem enumOffers_spec {t : NamedType} (h : o ∈ enumOffers t) : ∃ values,
    t.shape = .enum values ∧
      o = ⟨t.name, "enum", pure (.enum (values.map Value.str) t.description)⟩ := by
  unfold enumOffers at h
  split at h
  · exact ⟨_, ‹_›, List.mem_singleton.mp h⟩
  · cases h

theorem inputOffers_spec {t : NamedType} (h : o ∈ inputOffers c t) :
    t.kind = .inputObject ∧ o = ⟨t.name, "input", inputObject c t⟩ := by
  unfold inputOffers at h
  split at h
  · rename_i hkind
    exact ⟨by simpa using hkind, List.mem_singleton.mp h⟩
  · cases h

theorem fragmentOffers_spec {f : Fragment} : o ∈ fragmentOffers c f ↔ ∃ t,
    c.system.find? f.condition = some t ∧ o = ⟨Name.fragmentType f.name, "fragment",
      selection c (.fragment f.name) [f.name] t f.selections⟩ := by
  unfold fragmentOffers
  rcases c.system.find? f.condition with _ | t <;> simp

theorem componentOffers_spec {name : String} : o ∈ componentOffers c name ↔ ∃ t,
    c.system.find? name = some t ∧ o = ⟨name, "component", component c t⟩ := by
  unfold componentOffers
  rcases c.system.find? name with _ | t <;> simp

theorem operationOffers_spec {op : Operation} : o ∈ operationOffers c op ↔ ∃ name root,
    op.name = some name ∧ c.system.root? op.kind = some root ∧
      ((op.inputs ≠ [] ∧ o = ⟨Name.variablesType op.kind name, "variables",
          inputs c (.operation op.kind name) op.inputs⟩) ∨
        o = ⟨Name.responseType op.kind name, "response",
          selection c (.operation op.kind name) [] root op.selections⟩) := by
  unfold operationOffers
  rcases op.name with _ | name
  · simp
  · rcases c.system.root? op.kind with _ | root
    · simp
    · rcases hinputs : op.inputs with _ | ⟨v, vs⟩ <;> simp

/-- **Before the queue only fragments that nest without end can stop a compilation.** -/
theorem firstOffers_error (ho : o ∈ firstOffers c documents) {e : Fault}
    (he : o.lowered.outcome = .error e) : e = .endless ∧ ¬ Grounded c.fragments := by
  have hselection : ∀ {place inside t l}, (selection c place inside t l).outcome = .error e →
      e = .endless ∧ ¬ Grounded c.fragments := by
    intro place inside t l he
    refine ⟨selectionWithin_eq_error he, fun hg => ?_⟩
    obtain ⟨x, hx⟩ := selection_grounded hg place inside t l
    rw [hx] at he
    cases he
  rcases mem_firstOffers.mp ho with ⟨t, -, -, ho | ho⟩ | ⟨f, -, ho⟩ | ⟨op, -, ho⟩
  · obtain ⟨values, -, rfl⟩ := enumOffers_spec ho
    cases he
  · obtain ⟨-, rfl⟩ := inputOffers_spec ho
    obtain ⟨x, hx⟩ := inputObject_ok (c := c) t
    rw [hx] at he
    cases he
  · obtain ⟨t, -, rfl⟩ := fragmentOffers_spec.mp ho
    exact hselection he
  · obtain ⟨name, root, -, -, ⟨-, rfl⟩ | rfl⟩ := operationOffers_spec.mp ho
    · obtain ⟨properties, hproperties, -⟩ := inputs_spec c (.operation op.kind name) op.inputs
      rw [hproperties] at he
      cases he
    · exact hselection he

/-- Before the queue only composite types are reached. -/
theorem firstOffers_reaches {n : String} (ho : o ∈ firstOffers c documents)
    (h : Reaches o.lowered n) : ∃ u, c.system.find? n = some u ∧ u.IsComposite := by
  rcases mem_firstOffers.mp ho with ⟨t, -, -, ho | ho⟩ | ⟨f, -, ho⟩ | ⟨op, -, ho⟩
  · obtain ⟨values, -, rfl⟩ := enumOffers_spec ho
    cases h
  · obtain ⟨-, rfl⟩ := inputOffers_spec ho
    exact absurd h (not_inputObject_reaches t)
  · obtain ⟨t, -, rfl⟩ := fragmentOffers_spec.mp ho
    exact of_selectionWithin_reaches h
  · obtain ⟨name, root, -, -, ⟨-, rfl⟩ | rfl⟩ := operationOffers_spec.mp ho
    · exact absurd h (not_inputs_reaches op.inputs)
    · exact of_selectionWithin_reaches h

theorem firstOffers_category (ho : o ∈ firstOffers c documents) : o.category ≠ "component" := by
  rcases mem_firstOffers.mp ho with ⟨t, -, -, ho | ho⟩ | ⟨f, -, ho⟩ | ⟨op, -, ho⟩
  · obtain ⟨values, -, rfl⟩ := enumOffers_spec ho
    exact (by decide : "enum" ≠ "component")
  · obtain ⟨-, rfl⟩ := inputOffers_spec ho
    exact (by decide : "input" ≠ "component")
  · obtain ⟨t, -, rfl⟩ := fragmentOffers_spec.mp ho
    exact (by decide : "fragment" ≠ "component")
  · obtain ⟨name, root, -, -, ⟨-, rfl⟩ | rfl⟩ := operationOffers_spec.mp ho
    · exact (by decide : "variables" ≠ "component")
    · exact (by decide : "response" ≠ "component")

/-! ## A compilation -/

/-- The members of unions are composite types, as far as they exist. -/
def TypeSystem.ComposesUnions (s : TypeSystem) : Prop :=
  ∀ t ∈ s.types, ∀ members, t.shape = .union members → ∀ n ∈ members, ∀ u,
    s.find? n = some u → u.IsComposite

namespace Session

variable {system : TypeSystem} {scalars : List (String × String)} {library : Option String}
  {s s' q : Session}

theorem start_spec (h : start system documents scalars library = .ok s) :
    s.system = system ∧ s.documents = documents ∧ s.fragments = [] ∧ s.entries = [] ∧
      s.reached = [] := by
  unfold start at h
  split at h
  · split at h
    · obtain rfl := Except.ok.inj h
      exact ⟨rfl, rfl, rfl, rfl, rfl⟩
    · obtain ⟨code, -, h⟩ := except_bind_eq_ok.mp h
      obtain rfl := Except.ok.inj h
      exact ⟨rfl, rfl, rfl, rfl, rfl⟩
  · obtain rfl := Except.ok.inj h
    exact ⟨rfl, rfl, rfl, rfl, rfl⟩

/-- **What a session holds before the queue.** -/
theorem prepare_served (h : start system documents scalars library = .ok s)
    (hq : s.prepare = .ok q) : Served s.findFragments.setting documents
      (firstOffers s.findFragments.setting documents) q := by
  obtain ⟨-, hdocuments, -, hentries, hreached⟩ := start_spec h
  obtain ⟨-, -, hfdocuments, hfentries, hfreached, -⟩ := findFragments_spec s
  have hempty : Served s.findFragments.setting documents [] s.findFragments := by
    refine ⟨rfl, hfdocuments.trans hdocuments, ?_, ?_, by simp, by simp, ?_, ?_, by simp⟩
    · rw [names, hfentries, hentries]
      exact List.nodup_nil
    · rw [hfreached, hreached]
      exact List.nodup_nil
    · rw [hfentries, hentries]
      simp
    · rw [hfreached, hreached]
      simp
  have hserves := prepare_serves s
  rw [hq, hdocuments] at hserves
  exact hserves.served hempty

/-- All offers of a compilation: the first ones, and those of the types that were reached. -/
def offers (s : Session) : List Offer :=
  firstOffers s.setting s.documents ++ s.reached.flatMap (componentOffers s.setting)

/-- All offers have been served. -/
abbrev Finished (s : Session) : Prop := Served s.setting s.documents s.offers s

/-- **What a session holds after a compilation.** Every name that was reached was handled once, and
all that was offered is accounted for. -/
theorem run_served (h : start system documents scalars library = .ok s) (hrun : s.run = .ok s') :
    (∃ q, s.prepare = .ok q ∧ s'.reached.foldlM addComponent q = .ok s') ∧
      s'.setting = s.findFragments.setting ∧ s'.documents = documents ∧ s'.Finished := by
  rw [run_eq] at hrun
  obtain ⟨q, hq, hrun⟩ := except_bind_eq_ok.mp hrun
  have hserved := prepare_served h hq
  -- the names that can be reached are few enough for the steps
  have htypes : ∀ t ∈ q.system.types,
      t.typeNames ⊆ q.system.types.flatMap NamedType.typeNames ++ q.reached := fun t ht n hn =>
    List.mem_append_left _ (List.mem_flatMap.mpr ⟨t, ht, hn⟩)
  obtain ⟨-, hfold⟩ := addComponents_queue hserved.reached_nodup (List.subset_append_right _ _)
    htypes (Nat.zero_le _) (by rw [List.length_append]; omega) hrun
  rw [List.drop_zero] at hfold
  have hserves := Serves.foldlM (c := s.findFragments.setting) addComponent_serves s'.reached q
    hserved.setting
  rw [hfold] at hserves
  have hfinished := hserves.served hserved
  refine ⟨⟨q, hq, hfold⟩, hfinished.setting, hfinished.documents, ?_⟩
  rw [Finished, offers, hfinished.setting, hfinished.documents]
  exact hfinished

/-- The type of a name is composite, provided that the members of unions are. -/
def Composed (system : TypeSystem) (name : String) : Prop :=
  system.ComposesUnions → ∀ t, system.find? name = some t → t.IsComposite

/-- **When a compilation ends.** Only fragments that nest without end and unions with a member that
has no parts can stop it. -/
theorem run_ends (h : start system documents scalars library = .ok s) :
    (∃ s', s.run = .ok s') ∨
    (s.run = .error .endless ∧ ¬ Grounded (documents.flatMap Document.fragments)) ∨
    (s.run = .error .lacksPart ∧ ¬ system.ComposesUnions) := by
  obtain ⟨hsystem, hdocuments, hfragments, -⟩ := start_spec h
  obtain ⟨hfsystem, -, -, -, -, hfind⟩ := findFragments_spec s
  have hgrounded : Grounded (documents.flatMap Document.fragments) →
      Grounded s.findFragments.setting.fragments := by
    rw [hfragments, hdocuments, List.nil_append] at hfind
    have hspreads := spreads_congr hfind
    intro hg name f hf n hn
    change fragment? s.findFragments.fragments name = some f at hf
    change ¬ Relation.ReflTransGen (Spreads s.findFragments.fragments) n name
    rw [hspreads]
    rw [hfind] at hf
    exact hg name f hf n hn
  rw [run_eq]
  rcases hq : s.prepare with e | q
  · right; left
    have hserves := prepare_serves s
    rw [hq, hdocuments] at hserves
    obtain ⟨o, ho, he⟩ := hserves.exists_of_error
    obtain ⟨rfl, hnot⟩ := firstOffers_error ho he
    exact ⟨rfl, mt hgrounded hnot⟩
  · have hserved := prepare_served h hq
    rcases hend : addComponents ((q.system.types.flatMap NamedType.typeNames).length +
      q.reached.length + 1) 0 q with e | s'
    · right; right
      have hfound : ∀ {name t}, s.findFragments.setting.system.find? name = some t ↔
          system.find? name = some t := fun {name t} => by
        rw [← hsystem, ← hfsystem]
        rfl
      -- as long as all members of unions are composite, only composite types are reached
      have hfirst : ∀ n ∈ q.reached, Composed system n := by
        intro n hn _ t ht
        obtain ⟨o, ho, hr⟩ := (hserved.reached n).mp hn
        obtain ⟨u, hu, hc⟩ := firstOffers_reaches ho hr
        rw [hfound, ht] at hu
        exact Option.some.inj hu ▸ hc
      have hnext : ∀ name t, Composed system name →
          s.findFragments.setting.system.find? name = some t →
          ∀ n, Reaches (component s.findFragments.setting t) n → Composed system n := by
        intro name t _ ht n hr hunions u hu
        rcases (of_component_reaches hr).2 with ⟨v, hv, hc⟩ | ⟨members, hshape, hn⟩
        · rw [hfound, hu] at hv
          exact Option.some.inj hv ▸ hc
        · have hmem : t ∈ system.types := TypeSystem.mem_of_find? (hfound.mp ht)
          exact hunions t hmem members hshape n hn u hu
      obtain ⟨rfl, name, t, hgood, ht, hnot⟩ :=
        addComponents_error hnext hserved.setting hfirst hend
      exact ⟨hend, fun hunions => hnot (hgood hunions t (hfound.mp ht))⟩
    · exact .inl ⟨s', hend⟩

/-! ## Completeness -/

/-- A composite type of a name has one entry, which has the name of the type. -/
def Declares (s : Session) (name : String) : Prop :=
  ∀ t, s.system.find? name = some t → t.IsComposite →
    ∃! e, e ∈ s.result.entries ∧ e.name = name

/-- **Every type that needs an entry has one.** -/
structure Complete (s : Session) : Prop where
  distinct : (s.result.entries.map (·.name)).Nodup
  /-- The types of the fields that are kept in fragments. -/
  fragment : ∀ f ∈ s.fragments, ∀ t, s.system.find? f.condition = some t →
    ∀ field, Keeps s.setting [f.name] t f.selections field → s.Declares field.type.name
  /-- The types of the fields that are kept in operations. -/
  operation : ∀ op ∈ s.documents.flatMap Document.operations, op.name.isSome →
    ∀ root, s.system.root? op.kind = some root →
      ∀ field, Keeps s.setting [] root op.selections field → s.Declares field.type.name
  /-- The types that components refer to. -/
  component : ∀ e ∈ s.result.entries, e.category = some "component" →
    ∀ n ∈ e.schema.refs, s.Declares n
  /-- The members of the unions that were reached. -/
  union : ∀ name ∈ s.reached, ∀ t, s.system.find? name = some t →
    ∀ members, t.shape = .union members → ∀ n ∈ members, s.Declares n

variable {offers : List Offer}

theorem Served.mem_result (h : Served c documents offers s) {e : Entry} :
    e ∈ s.result.entries ↔ e ∈ s.entries := (Entry.sort_perm h.names_nodup).mem_iff

/-- A name that is taken is the name of one entry. -/
theorem Served.existsUnique (h : Served c documents offers s) {n : String} (hn : n ∈ s.names) :
    ∃! e, e ∈ s.result.entries ∧ e.name = n := by
  obtain ⟨e, he, rfl⟩ := List.mem_map.mp hn
  refine ⟨e, ⟨h.mem_result.mpr he, rfl⟩, ?_⟩
  rintro e' ⟨he', hname⟩
  exact List.inj_on_of_nodup_map h.names_nodup (h.mem_result.mp he') he hname

/-- **A compilation declares what it reaches.** -/
theorem Finished.declares (hs : s.Finished) {n : String} (hn : n ∈ s.reached) : s.Declares n := by
  intro t ht _
  have ho : ⟨n, "component", component s.setting t⟩ ∈ componentOffers s.setting n :=
    componentOffers_spec.mpr ⟨t, ht, rfl⟩
  exact hs.existsUnique (hs.taken _
    (List.mem_append_right _ (List.mem_flatMap.mpr ⟨n, hn, ho⟩)))

theorem Finished.declares_of_keeps (hs : s.Finished) {name category : String} {place : Place}
    {inside : List String} {root : NamedType} {l : List Selection}
    (ho : ⟨name, category, selection s.setting place inside root l⟩ ∈
      firstOffers s.setting s.documents) {field : Field}
    (hk : Keeps s.setting inside root l field) : s.Declares field.type.name := by
  intro t ht hc
  have ho : ⟨name, category, selection s.setting place inside root l⟩ ∈ s.offers :=
    List.mem_append_left _ ho
  obtain ⟨x, hx⟩ := hs.lowered _ ho
  have hreached : field.type.name ∈ s.reached :=
    (hs.reached _).mpr ⟨_, ho, hk.reached hx ht hc⟩
  exact hs.declares hreached t ht hc

/-- **A finished compilation is complete.** -/
theorem Finished.complete (hs : s.Finished) : s.Complete where
  distinct := Entry.nodup_sort _
  fragment f hf t ht field hk := by
    have ho : ⟨Name.fragmentType f.name, "fragment", selection s.setting (.fragment f.name) [f.name] t
        f.selections⟩ ∈ fragmentOffers s.setting f := fragmentOffers_spec.mpr ⟨t, ht, rfl⟩
    exact hs.declares_of_keeps (mem_firstOffers.mpr (.inr (.inl ⟨f, hf, ho⟩))) hk
  operation op hop hname root hroot field hk := by
    obtain ⟨name, hname⟩ := Option.isSome_iff_exists.mp hname
    have ho : ⟨Name.responseType op.kind name, "response", selection s.setting
        (.operation op.kind name) [] root op.selections⟩ ∈ operationOffers s.setting op :=
      operationOffers_spec.mpr ⟨name, root, hname, hroot, .inr rfl⟩
    exact hs.declares_of_keeps (mem_firstOffers.mpr (.inr (.inr ⟨op, hop, ho⟩))) hk
  component e he hcategory n hn := by
    obtain ⟨o, ho, x, hx, rfl⟩ := hs.origin e (hs.mem_result.mp he)
    have hcategory : o.category = "component" := Option.some.inj hcategory
    rcases List.mem_append.mp ho with hfirst | hcomponent
    · exact absurd hcategory (firstOffers_category hfirst)
    · obtain ⟨name, -, hname⟩ := List.mem_flatMap.mp hcomponent
      obtain ⟨t, -, rfl⟩ := componentOffers_spec.mp hname
      intro u hu hc
      rcases component_refs hx hn with hr | ⟨v, hv, henum⟩
      · exact hs.declares ((hs.reached n).mpr ⟨_, ho, hr⟩) u hu hc
      · have hsame : s.setting.system.find? n = some u := hu
        rw [hsame] at hv
        obtain rfl := Option.some.inj hv
        exact absurd henum hc.2
  union name hname t ht members hshape n hn := by
    have ho : ⟨name, "component", component s.setting t⟩ ∈ s.offers :=
      List.mem_append_right _ (List.mem_flatMap.mpr
        ⟨name, hname, componentOffers_spec.mpr ⟨t, ht, rfl⟩⟩)
    have hr : Reaches (component s.setting t) n := by
      rcases component_cases s.setting t with ⟨members', hshape', hlog, -⟩ |
        ⟨fields, ps, hfields, -⟩ | ⟨hnot, -⟩
      · rw [hshape] at hshape'
        injection hshape' with hmembers
        rw [Reaches, hlog, ← hmembers]
        exact List.mem_map_of_mem hn
      · rw [NamedType.fields?, hshape] at hfields
        cases hfields
      · refine absurd ?_ hnot
        simp [NamedType.IsComposite, NamedType.kind, hshape]
    exact hs.declares ((hs.reached n).mpr ⟨_, ho, hr⟩)

/-- **Main statement.** A compilation ends; only a fragment that leads back to itself through a spread
below a field, or a union with a member that has no parts, can stop it. When it ends, each name that
was reached was handled exactly once, in order, and every type that needs an entry has one. -/
theorem run_complete (h : start system documents scalars library = .ok s) :
    ((∃ s', s.run = .ok s') ∨
      (s.run = .error .endless ∧ ¬ Grounded (documents.flatMap Document.fragments)) ∨
      (s.run = .error .lacksPart ∧ ¬ system.ComposesUnions)) ∧
    ∀ s', s.run = .ok s' →
      (∃ q, s.prepare = .ok q ∧ s'.reached.foldlM addComponent q = .ok s') ∧ s'.reached.Nodup ∧
      s'.system = system ∧ s'.documents = documents ∧
      (∀ name, fragment? s'.fragments name =
        fragment? (documents.flatMap Document.fragments) name) ∧
      s'.Complete := by
  refine ⟨run_ends h, fun s' hrun => ?_⟩
  obtain ⟨hhandled, hsetting, hdocuments', hfinished⟩ := run_served h hrun
  obtain ⟨hsystem, hdocuments, hfragments, -⟩ := start_spec h
  obtain ⟨hfsystem, -, -, -, -, hfind⟩ := findFragments_spec s
  rw [hfragments, hdocuments, List.nil_append] at hfind
  have hsame : s'.fragments = s.findFragments.fragments := congrArg Setting.fragments hsetting
  have hsystem' : s'.system = s.findFragments.system := congrArg Setting.system hsetting
  refine ⟨hhandled, hfinished.reached_nodup, ?_, hdocuments', fun name => ?_, hfinished.complete⟩
  · rw [hsystem', hfsystem, hsystem]
  · rw [hsame, hfind]

/-! ## Owners and their pets -/

/-- Owners have pets, which are dogs or cats and have owners. -/
def ownerSystem : TypeSystem where
  types := [
    { name := "Query", shape := .object [] [{ name := "owner", type := .named "Owner" }] },
    { name := "Owner"
      shape := .object [] [{ name := "name", type := .nonNull (.named "String") },
        { name := "pets", type := .list (.named "Pet") }] },
    { name := "Pet", shape := .union ["Dog", "Cat"] },
    { name := "Dog", shape := .object [] [{ name := "owner", type := .named "Owner" }] },
    { name := "Cat", shape := .object [] [{ name := "owner", type := .named "Owner" }] },
    { name := "String", shape := .scalar }]
  roots := [(.query, "Query")]

/-- An operation that asks for the name of an owner, by a fragment that spreads itself. -/
def ownerDocument : Document := [
  .fragment { name := "Named", condition := "Owner", directives := []
              selections := [.field none "name" [] [] [], .spread "Named" []] },
  .operation { kind := .query, name := some "Owners", inputs := [], directives := []
               selections := [.field none "owner" [] [] [.spread "Named" []]] }]

theorem ownerDocument_grounded :
    Grounded ([ownerDocument].flatMap Document.fragments) := by
  intro name f hf n hn
  have hmem := List.mem_of_find?_eq_some hf
  obtain rfl := List.mem_singleton.mp hmem
  cases hn

theorem ownerSystem_composesUnions : ownerSystem.ComposesUnions := by
  intro t ht members hshape n hn u hu
  simp only [ownerSystem, List.mem_cons, List.not_mem_nil, or_false] at ht
  rcases ht with rfl | rfl | rfl | rfl | rfl | rfl <;> cases hshape
  rcases List.mem_cons.mp hn with rfl | hn
  · obtain rfl := Option.some.inj hu
    decide
  · obtain rfl := List.mem_singleton.mp hn
    obtain rfl := Option.some.inj hu
    decide

/-- Cats are reached only as owners' pets, and have one entry. -/
theorem run_owners : ∃ s s', start ownerSystem [ownerDocument] [] none = .ok s ∧
    s.run = .ok s' ∧ s'.reached = ["Owner", "Pet", "Dog", "Cat"] ∧ s'.Complete ∧
    ∃! e, e ∈ s'.result.entries ∧ e.name = "Cat" := by
  obtain ⟨s, hs, hreaches⟩ : ∃ s, start ownerSystem [ownerDocument] [] none = .ok s ∧
      ∀ s', s.run = .ok s' → s'.reached = ["Owner", "Pet", "Dog", "Cat"] :=
    ⟨_, rfl, fun s' h => by cases h; rfl⟩
  obtain ⟨hends, hall⟩ := run_complete hs
  obtain ⟨s', hrun⟩ : ∃ s', s.run = .ok s' := by
    rcases hends with hrun | ⟨-, hnot⟩ | ⟨-, hnot⟩
    · exact hrun
    · exact absurd ownerDocument_grounded hnot
    · exact absurd ownerSystem_composesUnions hnot
  obtain ⟨-, -, hsystem, -, -, hcomplete⟩ := hall s' hrun
  have hreached := hreaches s' hrun
  refine ⟨s, s', hs, hrun, hreached, hcomplete, ?_⟩
  have hcat : s'.Declares "Cat" := by
    refine hcomplete.union "Pet" (by rw [hreached]; decide) ownerSystem.types[2] ?_ ["Dog", "Cat"]
      rfl "Cat" (by decide)
    rw [hsystem]
    rfl
  refine hcat ownerSystem.types[4] ?_ (by decide)
  rw [hsystem]
  rfl

end Session

end SchemaForge.GraphQL
