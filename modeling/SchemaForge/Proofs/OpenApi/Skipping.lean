import SchemaForge.Proofs.OpenApi.Closure

/-!
# Operations that are skipped

A reference without a value ends the lowering of an operation and of nothing else.

* `Description.Readable`: no step meets a value of a shape that it is not defined on;
  **`compile_returns_iff`**: just then a compilation returns.
* `Progress.withNotes`, **`operations_notes`**: a run reads no notes.
* `Description.Treated`: an operation is offered whole, or all is as without it but for one note.
* **`compile_skips`**: what a compilation makes of each component and of each operation.
-/

namespace SchemaForge.OpenApi.Description

variable {d : Description} {p q : Progress}

/-! ## Documents that are read to their end -/

/-- No step of lowering a component or an operation meets a value of a shape that it is not defined
on. -/
structure Readable (d : Description) (components : Mapping) : Prop where
  mapping : d.components = .map components
  component : ∀ entry ∈ components, ∀ f,
    (componentEntry d.setting entry.1.display entry.2).outcome ≠ .error (.fault f)
  operation : ∀ op ∈ d.operations, ∀ f, (op.entries d.setting).outcome ≠ .error (.fault f)

theorem compileComponents_step {key : Atom} {node : Value} {e : Entry}
    (h : (componentEntry p.description.setting key.display node).outcome = .ok e)
    (rest : Mapping) :
    compileComponents p ((key, node) :: rest) = compileComponents
      ((p.note (componentEntry p.description.setting key.display node).log).offer [e]) rest := by
  rw [compileComponents, h]

theorem compileOperations_offer {op : Operation} {es : List Entry}
    (h : (op.entries p.description.setting).outcome = .ok es) (rest : List Operation) :
    compileOperations p (op :: rest) = compileOperations (p.offer es) rest := by
  rw [compileOperations, h, Operation.log_entries]
  simp [Progress.note]

/-- The note on an operation that is skipped. -/
def skipNote (op : Operation) (err : ReferenceError) : Note :=
  .skippedOperation (String.ofList (Text.upper op.method.toList)) op.path err

theorem compileOperations_skip {op : Operation} {err : ReferenceError}
    (h : (op.entries p.description.setting).outcome = .error (.unresolved err))
    (rest : List Operation) :
    compileOperations p (op :: rest) = compileOperations (p.note [skipNote op err]) rest := by
  rw [compileOperations, h, Operation.log_entries]
  simp [Progress.note, skipNote]

theorem compileOperations_fault {op : Operation} {f : Fault}
    (h : (op.entries p.description.setting).outcome = .error (.fault f)) (rest : List Operation) :
    compileOperations p (op :: rest) = (p, .error f) := by
  rw [compileOperations, h, Operation.log_entries]
  simp [Progress.note]

theorem compileComponents_returns : ∀ {components : Mapping} {p : Progress},
    (∀ entry ∈ components, ∀ f,
      (componentEntry p.description.setting entry.1.display entry.2).outcome ≠ .error (.fault f)) →
    ∃ q, compileComponents p components = (q, .ok ())
  | [], p, _ => ⟨p, rfl⟩
  | (key, node) :: rest, p, h => by
    rw [List.forall_mem_cons] at h
    rcases he : (componentEntry p.description.setting key.display node).outcome with (f | err) | e
    · exact absurd he (h.1 f)
    · exact absurd he (componentEntry_not_unresolved _ _ _)
    · rw [compileComponents_step he]
      exact compileComponents_returns h.2

theorem compileOperations_returns : ∀ {ops : List Operation} {p : Progress},
    (∀ op ∈ ops, ∀ f, (op.entries p.description.setting).outcome ≠ .error (.fault f)) →
    ∃ q, compileOperations p ops = (q, .ok ())
  | [], p, _ => ⟨p, rfl⟩
  | op :: rest, p, h => by
    rw [List.forall_mem_cons] at h
    rcases he : (op.entries p.description.setting).outcome with (f | err) | es
    · exact absurd he (h.1 f)
    · rw [compileOperations_skip he]
      exact compileOperations_returns h.2
    · rw [compileOperations_offer he]
      exact compileOperations_returns h.2

/-- A run that returns lowers each of its operations without a fault. -/
theorem operations_readable : ∀ {ops : List Operation} {p q : Progress},
    compileOperations p ops = (q, .ok ()) →
    ∀ op ∈ ops, ∀ f, (op.entries p.description.setting).outcome ≠ .error (.fault f)
  | [], _, _, _ => fun _ h => absurd h List.not_mem_nil
  | op :: rest, p, q, h => by
    rw [List.forall_mem_cons]
    rcases compileOperations_cons h with ⟨es, hes, h⟩ | ⟨err, herr, h⟩
    · exact ⟨fun f => by rw [hes]; exact nofun, operations_readable (p := p.offer es) h⟩
    · exact ⟨fun f => by rw [herr]; exact nofun, operations_readable (p := p.note [skipNote op err]) h⟩

theorem compileOperations_append : ∀ {pre : List Operation} {p q : Progress},
    compileOperations p pre = (q, .ok ()) → ∀ rest,
    compileOperations p (pre ++ rest) = compileOperations q rest
  | [], _, _, h, rest => by
    cases h
    rfl
  | op :: pre, p, q, h, rest => by
    rcases compileOperations_cons h with ⟨es, hes, h⟩ | ⟨err, herr, h⟩
    · rw [List.cons_append, compileOperations_offer hes]
      exact compileOperations_append h rest
    · rw [List.cons_append, compileOperations_skip herr]
      exact compileOperations_append h rest

/-! ## Notes -/

/-- The same progress with other notes. -/
def Progress.withNotes (p : Progress) (notes : List Note) : Progress :=
  { p with description := { p.description with notes } }

theorem Progress.withNotes_self (p : Progress) : p.withNotes p.description.notes = p := rfl

theorem Progress.note_withNotes (p : Progress) (before notes : List Note) :
    (p.withNotes before).note notes = p.withNotes (before ++ notes) := rfl

theorem Progress.offer_withNotes (p : Progress) (before : List Note) (es : List Entry) :
    (p.withNotes before).offer es =
      (p.offer es).withNotes (before ++ (admitNames p.description.taken es).2.2) := rfl

/-- **A run reads no notes.** It adds the same ones behind whatever is there. -/
theorem operations_notes : ∀ (ops : List Operation) (p : Progress), ∃ (q : Progress) (notes : List Note)
    (outcome : Except Fault Unit), ∀ before,
    compileOperations (p.withNotes before) ops = (q.withNotes (before ++ notes), outcome)
  | [], p => ⟨p, [], .ok (), fun before => by rw [List.append_nil]; rfl⟩
  | op :: rest, p => by
    rcases he : (op.entries p.description.setting).outcome with (f | err) | es
    · refine ⟨p, [], .error f, fun before => ?_⟩
      rw [compileOperations_fault (p := p.withNotes before) he, List.append_nil]
    · obtain ⟨q, notes, outcome, hq⟩ := operations_notes rest p
      refine ⟨q, skipNote op err :: notes, outcome, fun before => ?_⟩
      rw [compileOperations_skip (p := p.withNotes before) he, Progress.note_withNotes, hq,
        List.append_assoc]
      rfl
    · obtain ⟨q, notes, outcome, hq⟩ := operations_notes rest (p.offer es)
      refine ⟨q, (admitNames p.description.taken es).2.2 ++ notes, outcome, fun before => ?_⟩
      rw [compileOperations_offer (p := p.withNotes before) he, Progress.offer_withNotes, hq,
        List.append_assoc]

/-- Whether a note is on a reference without a value in a component. -/
def isUnresolved : Note → Bool
  | .unresolvedInComponent .. => true
  | _ => false

theorem filter_offer (p : Progress) (es : List Entry) :
    (p.offer es).description.notes.filter isUnresolved =
      p.description.notes.filter isUnresolved := by
  have hnil : ∀ (es : List Entry) (taken : List String),
      (admitNames taken es).2.2.filter isUnresolved = [] := by
    intro es
    induction es with
    | nil => exact fun _ => rfl
    | cons e es ih =>
      intro taken
      rw [admitNames]
      split
      · exact ih taken
      · exact ih (e.name :: taken)
  rw [Progress.offer]
  dsimp only
  rw [List.filter_append, hnil, List.append_nil]

theorem filter_componentEntry {s : Setting} {key : String} {node : Value} {e : Entry}
    (h : (componentEntry s key node).outcome = .ok e) :
    (componentEntry s key node).log.filter isUnresolved = (componentEntry s key node).log := by
  obtain ⟨m, errs, -, -, hlog⟩ := componentEntry_ok h
  rw [hlog, List.filter_eq_self]
  intro note hnote
  obtain ⟨err, -, rfl⟩ := List.mem_map.mp hnote
  rfl

/-- The components note the references without a value that they meet, in order. -/
theorem components_notes : ∀ {components : Mapping} {p q : Progress},
    compileComponents p components = (q, .ok ()) →
    q.description.notes.filter isUnresolved = p.description.notes.filter isUnresolved ++
      components.flatMap fun entry =>
        (componentEntry p.description.setting entry.1.display entry.2).log
  | [], p, q, h => by
    cases h
    rw [List.flatMap_nil, List.append_nil]
  | (key, node) :: rest, p, q, h => by
    obtain ⟨e, he, h⟩ := compileComponents_cons h
    rw [components_notes h, filter_offer, List.flatMap_cons, ← List.append_assoc, Progress.note]
    dsimp only
    rw [List.filter_append, filter_componentEntry he]
    rfl

theorem operations_unresolved : ∀ {ops : List Operation} {p q : Progress},
    compileOperations p ops = (q, .ok ()) →
    q.description.notes.filter isUnresolved = p.description.notes.filter isUnresolved
  | [], _, _, h => by cases h; rfl
  | op :: rest, p, q, h => by
    rcases compileOperations_cons h with ⟨es, -, h⟩ | ⟨err, -, h⟩
    · rw [operations_unresolved h, filter_offer]
    · rw [operations_unresolved h, Progress.note]
      dsimp only
      rw [List.filter_append]
      exact List.append_nil _

/-! ## Operations -/

/-- What becomes of an operation between others. It meets no reference without a value and all its
entries are offered, or it meets one and all is as without it, except for one note. -/
inductive Treated (p : Progress) (pre : List Operation) (op : Operation) (post : List Operation)
    (q : Progress) : Prop
  | offered {before : Progress} {es : List Entry} :
    (∀ err, ¬ op.Hits p.description.setting err) →
    compileOperations p pre = (before, .ok ()) →
    (op.entries p.description.setting).outcome = .ok es →
    compileOperations (before.offer es) post = (q, .ok ()) → Treated p pre op post q
  | skipped {before without : Progress} {err : ReferenceError} {notes : List Note} :
    op.Hits p.description.setting err →
    compileOperations p pre = (before, .ok ()) →
    compileOperations p (pre ++ post) = (without, .ok ()) →
    without.description.notes = before.description.notes ++ notes →
    q = without.withNotes (before.description.notes ++ skipNote op err :: notes) →
    Treated p pre op post q

/-- **Every operation of a run** is offered whole or skipped. -/
theorem operations_treated {pre post : List Operation} {op : Operation} (ht : Tidy p)
    (h : compileOperations p (pre ++ op :: post) = (q, .ok ())) : Treated p pre op post q := by
  have hread := operations_readable h
  obtain ⟨before, hpre⟩ : ∃ before, compileOperations p pre = (before, .ok ()) :=
    compileOperations_returns fun o ho => hread o (List.mem_append_left _ ho)
  have hsetting := (operations_entries hpre ht).2.1.setting
  rw [compileOperations_append hpre] at h
  rcases he : (op.entries p.description.setting).outcome with (f | err) | es
  · exact absurd he (hread op (List.mem_append_right _ List.mem_cons_self) f)
  · obtain ⟨r, notes, outcome, hr⟩ := operations_notes post before
    rw [compileOperations_skip (hsetting ▸ he)] at h
    have hskip := hr (before.description.notes ++ [skipNote op err])
    rw [← Progress.note_withNotes, Progress.withNotes_self, h, Prod.mk.injEq] at hskip
    obtain ⟨rfl, rfl⟩ := hskip
    have hwithout : compileOperations p (pre ++ post) =
        (r.withNotes (before.description.notes ++ notes), .ok ()) := by
      rw [compileOperations_append hpre]
      exact hr before.description.notes
    refine .skipped (Operation.entries_unresolved he) hpre hwithout rfl ?_
    rw [List.append_assoc]
    rfl
  · rw [compileOperations_offer (hsetting ▸ he)] at h
    exact .offered (Operation.entries_ok he) hpre he h

/-! ## Compilations -/

section Compiled

variable {document : Value} {c : Choices} {components : Mapping}

/-- **A compilation returns just when the document can be read.** -/
theorem compile_returns_iff (h : ofDocument document c = .ok d)
    (hc : d.components = .map components) :
    (∃ r, d.compile.2 = .ok r) ↔ d.Readable components := by
  refine ⟨fun ⟨r, hr⟩ => ?_, fun hread => ?_⟩
  · obtain ⟨components', p, q, hc', hp, hq, -, -⟩ := compile_ok hr
    obtain rfl : components = components' := Value.map.inj (hc.symm.trans hc')
    obtain ⟨-, hsame, -, hall⟩ := components_entries hp (tidy_start h)
    refine ⟨hc, fun entry hentry f => ?_, fun op hop f => ?_⟩
    · obtain ⟨e, he, -⟩ := hall entry hentry
      exact fun hf => nomatch he.symm.trans hf
    · rw [operations, ← show p.description.paths = d.paths from hsame.paths] at hop
      have := operations_readable hq op hop f
      rwa [hsame.setting] at this
  · obtain ⟨p, hp⟩ := compileComponents_returns (p := { description := d }) hread.component
    obtain ⟨-, hsame, -⟩ := components_entries hp (tidy_start h)
    obtain ⟨q, hq⟩ : ∃ q, compileOperations p p.description.operations = (q, .ok ()) := by
      refine compileOperations_returns fun op hop f => ?_
      rw [operations, hsame.paths] at hop
      rw [hsame.setting]
      exact hread.operation op hop f
    exact ⟨_, congrArg Prod.snd (compile_eq hc hp hq)⟩

/-- A component keeps its entry among others. Each reference without a value that is met stands for
unknown in it and has a note with the key of the component. -/
def Kept (d : Description) (entries : List Entry) (component : Atom × Value) (noted : List Note) :
    Prop :=
  ∃ m errs, Lowering.Lowers d.setting component.2 m errs ∧
    noted = errs.map (.unresolvedInComponent component.1.display) ∧
    (d.component? component.1.display = some component.2 →
      Entry.of (d.setting.nameOf component.1.display) m.toSchema (some "component") ∈ entries)

/-- **References without a value.** In a component they stand for unknown and have notes, and no
component is lost; an operation with one is skipped, and nothing else with it. -/
theorem compile_skips (h : ofDocument document c = .ok d) (hread : d.Readable components) :
    (∀ key node err, (componentEntry d.setting key node).outcome ≠ .error (.unresolved err)) ∧
    ∃ p q, compileComponents { description := d } components = (p, .ok ()) ∧
      compileOperations p d.operations = (q, .ok ()) ∧
      d.compile = (q.description,
        .ok { entries := Entry.sort q.entries, warnings := q.description.warnings }) ∧
      (∃ noted, List.Forall₂ (Kept d (Entry.sort q.entries)) components noted ∧
        q.description.notes.filter isUnresolved = noted.flatten) ∧
      p.description.setting = d.setting ∧
      ∀ pre op post, d.operations = pre ++ op :: post → Treated p pre op post q := by
  refine ⟨componentEntry_not_unresolved, ?_⟩
  obtain ⟨r, hr⟩ := (compile_returns_iff h hread.mapping).mpr hread
  obtain ⟨components', p, q, hc', hp, hq, -, -⟩ := compile_ok hr
  obtain rfl : components = components' := Value.map.inj (hread.mapping.symm.trans hc')
  obtain ⟨htidy, hsame, -, hall⟩ := components_entries hp (tidy_start h)
  have hcompile := compile_eq hread.mapping hp hq
  have hs := run_sources h hread.mapping hp hq
  rw [operations, show p.description.paths = d.paths from hsame.paths] at hq
  refine ⟨p, q, hp, hq, hcompile, ?_, hsame.setting, fun pre op post hsplit => ?_⟩
  · refine ⟨components.map fun entry => (componentEntry d.setting entry.1.display entry.2).log,
      ?_, ?_⟩
    · rw [List.forall₂_map_right_iff, List.forall₂_same]
      intro entry hentry
      obtain ⟨e, he, -⟩ := hall entry hentry
      obtain ⟨m, errs, hl, heq, hlog⟩ := componentEntry_ok he
      refine ⟨m, errs, hl, hlog, fun hk => ?_⟩
      obtain ⟨e', he', hkey⟩ := hs.component entry.1.display (by rw [hk]; rfl)
      obtain rfl : e = e' := FromComponent.eq ⟨entry.2, hk, he⟩ hkey
      rw [← heq]
      exact (Entry.sort_perm hs.nodup).mem_iff.mpr he'
    · have hstart : d.notes.filter isUnresolved = [] := by
        rw [List.filter_eq_nil_iff]
        intro note hnote
        obtain ⟨owner, key, name, unique, rfl⟩ := (ofDocument_fresh h).2 note hnote
        exact Bool.false_ne_true
      rw [operations_unresolved hq, components_notes hp, hstart, List.nil_append, List.flatMap_def]
  · rw [show Operation.ofPaths d.paths = d.operations from rfl, hsplit] at hq
    exact operations_treated htidy hq

end Compiled

/-! ## A tag that is nowhere -/

/-- A pet whose tag is nowhere. -/
def petNodes : Mapping := [
  (.str "Pet", .map [(.str "type", .str "object"), (.str "properties", .map [
    (.str "tag", .map [(.str "$ref", .str "#/components/schemas/Tag")])])])]

/-- A body of some schema. -/
def petBody (ref : String) : Value :=
  .map [(.str "content", .map [(.str "application/json", .map [
    (.str "schema", .map [(.str "$ref", .str ref)])])])]

/-- An operation that is sent a tag, and one that is sent a pet. -/
def petPaths : Mapping := [
  (.str "/pets", .map [
    (.str "put", .map [(.str "requestBody", petBody "#/components/schemas/Tag")]),
    (.str "post", .map [(.str "requestBody", petBody "#/components/schemas/Pet")])])]

/-- The document of the pets. -/
def petDocument : Value :=
  .map [(.str "openapi", .str "3.1.0"), (.str "paths", .map petPaths),
    (.str "components", .map [(.str "schemas", .map petNodes)])]

/-- The description in the document of the pets. -/
def petDescription : Description where
  setting := { document := petDocument, scalars := [], componentNames := [("Pet", "Pet")] }
  paths := petPaths
  components := .map petNodes

theorem readable_pets : petDescription.Readable petNodes where
  mapping := rfl
  component := List.forall_mem_singleton.mpr fun _ => nofun
  operation := by
    obtain ⟨put, post, hops, hput, hpost⟩ : ∃ put post, petDescription.operations = [put, post] ∧
        (put.entries petDescription.setting).outcome =
          .error (.unresolved (.unknownComponent "Tag")) ∧
        ∃ es, (post.entries petDescription.setting).outcome = .ok es :=
      ⟨_, _, rfl, rfl, _, rfl⟩
    rw [hops, List.forall_mem_cons, List.forall_mem_singleton, hput, hpost.choose_spec]
    exact ⟨fun _ => nofun, fun _ => nofun⟩

/-- Among the pets one operation is skipped. -/
theorem compile_pets : ∃ q, petDescription.compile = (q.description,
      .ok { entries := Entry.sort q.entries, warnings := q.description.warnings }) ∧
    q.entries.map (·.name) = ["Pet", "PostPetsRequest"] ∧
    q.description.notes = [.unresolvedInComponent "Pet" (.unknownComponent "Tag"),
      .skippedOperation "PUT" (.str "/pets") (.unknownComponent "Tag")] ∧
    ∃ p put post, petDescription.operations = [put, post] ∧ Treated p [] put [post] q := by
  have h : ofDocument petDocument {} = .ok petDescription := rfl
  obtain ⟨-, p, q, hp, hq, hcompile, -, -, htreated⟩ := compile_skips h readable_pets
  have hq' : q = (compileOperations (compileComponents { description := petDescription }
    petNodes).1 petDescription.operations).1 := by rw [hp, hq]
  refine ⟨q, hcompile, ?_, ?_, p, _, _, rfl, htreated [] _ _ rfl⟩
  · rw [hq']
    rfl
  · rw [hq']
    rfl

end SchemaForge.OpenApi.Description
