import SchemaForge.Proofs.OpenApi.Sites

/-!
# The run of a compilation

Components and operations are compiled one after another; each is lowered and offers its entries.

* `Admitted`: of the entries that are offered, those of free names are taken.
* `compileComponents_cons`, `compileOperations_cons`: one step of a run.
* `Progress.Tidy`: the names that are taken are those of the entries, each once.
* **`components_entries`**, **`operations_entries`**: a run keeps names tidy; where its entries come
  from.
-/

namespace SchemaForge.OpenApi.Description

/-! ## Offers -/

/-- Of the entries that are offered, those of free names are taken, each name once. -/
structure Admitted (taken : List String) (offered new : List Entry) (taken' : List String) :
    Prop where
  sublist : new.Sublist offered
  nodup : (new.map (·.name)).Nodup
  free : ∀ e ∈ new, e.name ∉ taken
  taken_iff : ∀ name, name ∈ taken' ↔ name ∈ taken ∨ name ∈ new.map (·.name)
  offered : ∀ e ∈ offered, e.name ∈ taken'

theorem admitNames_spec : ∀ (offered : List Entry) (taken : List String),
    Admitted taken offered (admitNames taken offered).1 (admitNames taken offered).2.1
  | [], taken => {
      sublist := .slnil
      nodup := List.nodup_nil
      free := fun _ h => absurd h List.not_mem_nil
      taken_iff := fun name => by simp [admitNames]
      offered := fun _ h => absurd h List.not_mem_nil }
  | e :: rest, taken => by
    rw [admitNames]
    split
    · rename_i htaken
      have h := admitNames_spec rest taken
      refine ⟨h.sublist.cons e, h.nodup, h.free, h.taken_iff, ?_⟩
      rw [List.forall_mem_cons]
      exact ⟨(h.taken_iff _).mpr (.inl (by simpa using htaken)), h.offered⟩
    · rename_i hfree
      have h := admitNames_spec rest (e.name :: taken)
      refine ⟨h.sublist.cons_cons e, ?_, ?_, fun name => ?_, ?_⟩
      · rw [List.map_cons, List.nodup_cons]
        refine ⟨fun hm => ?_, h.nodup⟩
        obtain ⟨x, hx, hn⟩ := List.mem_map.mp hm
        exact h.free x hx (hn ▸ List.mem_cons_self)
      · rw [List.forall_mem_cons]
        exact ⟨by simpa using hfree, fun x hx hn => h.free x hx (List.mem_cons_of_mem _ hn)⟩
      · dsimp only
        rw [h.taken_iff, List.mem_cons, List.map_cons, List.mem_cons]
        tauto
      · rw [List.forall_mem_cons]
        exact ⟨(h.taken_iff _).mpr (.inl List.mem_cons_self), h.offered⟩

/-- What an offer changes. -/
theorem offer_spec (p : Progress) (offered : List Entry) : ∃ new,
    (p.offer offered).entries = p.entries ++ new ∧
    Admitted p.description.taken offered new (p.offer offered).description.taken :=
  ⟨_, rfl, admitNames_spec offered p.description.taken⟩

/-! ## Steps -/

variable {p q : Progress}

theorem compileComponents_cons {key : Atom} {node : Value} {rest : Mapping}
    (h : compileComponents p ((key, node) :: rest) = (q, .ok ())) : ∃ e,
      (componentEntry p.description.setting key.display node).outcome = .ok e ∧
      compileComponents
        ((p.note (componentEntry p.description.setting key.display node).log).offer [e]) rest =
          (q, .ok ()) := by
  rw [compileComponents] at h
  split at h
  · rename_i e he
    exact ⟨e, he, h⟩
  · exact absurd (congrArg Prod.snd h) nofun
  · rename_i err he
    exact absurd he (componentEntry_not_unresolved _ _ _)

theorem compileOperations_cons {op : Operation} {rest : List Operation}
    (h : compileOperations p (op :: rest) = (q, .ok ())) :
    (∃ es, (op.entries p.description.setting).outcome = .ok es ∧
      compileOperations (p.offer es) rest = (q, .ok ())) ∨
    ∃ err, (op.entries p.description.setting).outcome = .error (.unresolved err) ∧
      compileOperations (p.note
        [.skippedOperation (String.ofList (Text.upper op.method.toList)) op.path err]) rest =
          (q, .ok ()) := by
  have hnote : p.note [] = p := by simp [Progress.note]
  rw [compileOperations] at h
  rw [Operation.log_entries, hnote] at h
  split at h
  · rename_i es hes
    exact .inl ⟨es, hes, h⟩
  · exact absurd (congrArg Prod.snd h) nofun
  · rename_i err he
    exact .inr ⟨err, he, h⟩

/-! ## Names -/

/-- The names that are taken are those of the entries, each once. -/
structure Tidy (p : Progress) : Prop where
  nodup : (p.entries.map (·.name)).Nodup
  taken : ∀ name, name ∈ p.description.taken ↔ name ∈ p.entries.map (·.name)

theorem Tidy.note (h : Tidy p) (notes : List Note) : Tidy (p.note notes) := ⟨h.nodup, h.taken⟩

theorem Tidy.offer (h : Tidy p) (offered : List Entry) : Tidy (p.offer offered) := by
  obtain ⟨new, hnew, ha⟩ := offer_spec p offered
  refine ⟨?_, fun name => ?_⟩
  · rw [hnew, List.map_append, List.nodup_append]
    refine ⟨h.nodup, ha.nodup, fun a ha' b hb hab => ?_⟩
    obtain ⟨e, he, rfl⟩ := List.mem_map.mp hb
    exact ha.free e he ((h.taken _).mpr (hab ▸ ha'))
  · rw [ha.taken_iff, hnew, List.map_append, List.mem_append, h.taken]

/-! ## Runs -/

/-- A run leaves the setting and the paths of a description as they are. -/
structure SameSource (p q : Progress) : Prop where
  setting : q.description.setting = p.description.setting
  paths : q.description.paths = p.description.paths

/-- **The run over the components.** It keeps names tidy. A new entry comes from the first component
that goes by its name, and at the end the name of every component is taken. -/
theorem components_entries : ∀ {components : Mapping} {p q : Progress},
    compileComponents p components = (q, .ok ()) → Tidy p →
    Tidy q ∧ SameSource p q ∧
    (∃ new, q.entries = p.entries ++ new ∧
      ∀ e ∈ new, e.name ∉ p.description.taken ∧
        ∃ before key node after, components = before ++ (key, node) :: after ∧
          (componentEntry p.description.setting key.display node).outcome = .ok e ∧
          ∀ entry ∈ before, p.description.setting.nameOf entry.1.display ≠ e.name) ∧
    ∀ entry ∈ components, ∃ e,
      (componentEntry p.description.setting entry.1.display entry.2).outcome = .ok e ∧
      e.name ∈ q.entries.map (·.name)
  | [], p, q, h, ht => by
    cases h
    exact ⟨ht, ⟨rfl, rfl⟩, ⟨[], (List.append_nil _).symm, fun _ h => absurd h List.not_mem_nil⟩,
      fun _ h => absurd h List.not_mem_nil⟩
  | (key, node) :: rest, p, q, h, ht => by
    obtain ⟨e, he, h⟩ := compileComponents_cons h
    have htidy := (ht.note (componentEntry p.description.setting key.display node).log).offer [e]
    obtain ⟨own, hown, ha⟩ := offer_spec
      (p.note (componentEntry p.description.setting key.display node).log) [e]
    obtain ⟨hq, hsame, ⟨new, hnew, hfrom⟩, hall⟩ := components_entries h htidy
    have he' : e.name ∈ q.entries.map (·.name) := by
      rw [hnew, List.map_append, List.mem_append]
      exact .inl ((htidy.taken _).mp (ha.offered e (List.mem_singleton.mpr rfl)))
    refine ⟨hq, ⟨hsame.setting, hsame.paths⟩, ⟨own ++ new, ?_, fun x hx => ?_⟩, ?_⟩
    · rw [hnew, hown, List.append_assoc]
      rfl
    · rcases List.mem_append.mp hx with hx | hx
      · obtain rfl := List.mem_singleton.mp (ha.sublist.subset hx)
        exact ⟨ha.free x hx, [], key, node, rest, rfl, he, fun _ h => absurd h List.not_mem_nil⟩
      · obtain ⟨hfree, before, k, n, after, hsplit, hk, hbefore⟩ := hfrom x hx
        refine ⟨fun hm => hfree ((ha.taken_iff _).mpr (.inl hm)), (key, node) :: before, k, n, after,
          by rw [hsplit]; rfl, hk, ?_⟩
        rw [List.forall_mem_cons]
        refine ⟨fun hn => hfree ?_, hbefore⟩
        rw [← hn]
        exact componentEntry_name he ▸ ha.offered e (List.mem_singleton.mpr rfl)
    · rw [List.forall_mem_cons]
      exact ⟨⟨e, he, he'⟩, hall⟩

/-- **The run over the operations.** It keeps names tidy, and a new entry is one that an operation
offers under a name that was free. -/
theorem operations_entries : ∀ {ops : List Operation} {p q : Progress},
    compileOperations p ops = (q, .ok ()) → Tidy p →
    Tidy q ∧ SameSource p q ∧
    ∃ new, q.entries = p.entries ++ new ∧
      ∀ e ∈ new, e.name ∉ p.description.taken ∧ ∃ op ∈ ops, ∃ es,
        (op.entries p.description.setting).outcome = .ok es ∧ e ∈ es
  | [], p, q, h, ht => by
    cases h
    exact ⟨ht, ⟨rfl, rfl⟩, [], (List.append_nil _).symm, fun _ h => absurd h List.not_mem_nil⟩
  | op :: rest, p, q, h, ht => by
    rcases compileOperations_cons h with ⟨es, hes, h⟩ | ⟨err, -, h⟩
    · obtain ⟨own, hown, ha⟩ := offer_spec p es
      obtain ⟨hq, hsame, new, hnew, hfrom⟩ := operations_entries h (ht.offer es)
      refine ⟨hq, ⟨hsame.setting, hsame.paths⟩, own ++ new, ?_, fun x hx => ?_⟩
      · rw [hnew, hown, List.append_assoc]
      · rcases List.mem_append.mp hx with hx | hx
        · exact ⟨ha.free x hx, op, List.mem_cons_self, es, hes, ha.sublist.subset hx⟩
        · obtain ⟨hfree, o, ho, os, hos, hxo⟩ := hfrom x hx
          exact ⟨fun hm => hfree ((ha.taken_iff _).mpr (.inl hm)), o, List.mem_cons_of_mem _ ho, os,
            hos, hxo⟩
    · obtain ⟨hq, hsame, new, hnew, hfrom⟩ := operations_entries h (ht.note _)
      refine ⟨hq, ⟨hsame.setting, hsame.paths⟩, new, hnew, fun x hx => ?_⟩
      obtain ⟨hfree, o, ho, os, hos, hxo⟩ := hfrom x hx
      exact ⟨hfree, o, List.mem_cons_of_mem _ ho, os, hos, hxo⟩

theorem compile_eq {d : Description} {components : Mapping} (hc : d.components = .map components)
    (hp : compileComponents { description := d } components = (p, .ok ()))
    (hq : compileOperations p p.description.operations = (q, .ok ())) :
    d.compile = (q.description,
      .ok { entries := Entry.sort q.entries, warnings := q.description.warnings }) := by
  rw [compile, hc]
  dsimp only
  rw [hp]
  dsimp only
  rw [hq]

/-- A compilation that returns runs over the components and then over the operations. -/
theorem compile_ok {d : Description} {r : Result} (h : d.compile.2 = .ok r) : ∃ components p q,
    d.components = .map components ∧
    compileComponents { description := d } components = (p, .ok ()) ∧
    compileOperations p p.description.operations = (q, .ok ()) ∧
    d.compile.1 = q.description ∧
    r = { entries := Entry.sort q.entries, warnings := q.description.warnings } := by
  unfold compile at h ⊢
  split at h
  · rename_i components hc
    rw [hc]
    rcases hp : compileComponents { description := d } components with ⟨p, f | u⟩
    · rw [hp] at h
      cases h
    · rw [hp] at h
      dsimp only at h ⊢
      rcases hq : compileOperations p p.description.operations with ⟨q, f | u'⟩
      · rw [hq] at h
        cases h
      · rw [hq] at h
        cases h
        exact ⟨components, p, q, rfl, hp, hq, rfl, rfl⟩
  · cases h

end SchemaForge.OpenApi.Description
