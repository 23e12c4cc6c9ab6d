import SchemaForge.OpenApi.Document
import SchemaForge.Proofs.OpenApi.Renaming
import SchemaForge.Proofs.OpenApi.Unresolved

/-!
# References without a value in components and operations

* `Description.componentEntry_ok`, `Description.componentEntry_not_unresolved`: a component keeps
  its entry.
* `Operation.Hits`: a reference without a value is met in an operation.
* **`Operation.entries_ok`**, **`Operation.entries_unresolved`**: meeting one is what ends an
  operation.
-/

namespace SchemaForge.OpenApi

variable {s : Setting}

/-! ## Components -/

theorem lower_reports (site : Site) (v : Value) :
    Lowering.Reports s site v (Lowering.lower s site v) :=
  Lowering.lowerWithin_reports _ v

theorem Lowering.log_schema (v : Value) : (Lowering.schema s .operation v).log = [] :=
  Logged.log_bind_eq_nil ((lower_reports .operation v).log rfl) fun _ => rfl

theorem Lowering.schema_unresolved {site : Site} {v : Value} {err : ReferenceError}
    (h : (Lowering.schema s site v).outcome = .error (.unresolved err)) :
    site = .operation ∧ Lowering.Hits s v err := by
  rcases Logged.outcome_bind_eq_error h with h | ⟨m, -, h⟩
  · exact (lower_reports site v).unresolved err h
  · cases h

namespace Description

/-- **A component keeps its entry**, with a note for each reference without a value that is met. -/
theorem componentEntry_ok {key : String} {node : Value} {e : Entry}
    (h : (componentEntry s key node).outcome = .ok e) : ∃ m errs,
      Lowering.Lowers s node m errs ∧ e = Entry.of (s.nameOf key) m.toSchema (some "component") ∧
      (componentEntry s key node).log = errs.map (.unresolvedInComponent key) := by
  unfold componentEntry Lowering.schema at h ⊢
  obtain ⟨x, hx, h⟩ := Logged.outcome_bind_eq_ok.mp h
  obtain ⟨m, hm, hx'⟩ := Logged.outcome_bind_eq_ok.mp hx
  obtain rfl := Except.ok.inj h
  obtain rfl := Except.ok.inj hx'
  obtain ⟨errs, hl, hlog, -⟩ := (lower_reports (.component key) node).ok m hm
  refine ⟨m, errs, hl, rfl, ?_⟩
  rw [Logged.log_bind hx, Logged.log_bind hm, hlog]
  exact (List.append_nil _).trans (List.append_nil _)

theorem componentEntry_not_unresolved (key : String) (node : Value) (err : ReferenceError) :
    (componentEntry s key node).outcome ≠ .error (.unresolved err) := by
  intro h
  rcases Logged.outcome_bind_eq_error h with h | ⟨x, -, h⟩
  · exact nomatch (Lowering.schema_unresolved h).1
  · cases h

theorem componentEntry_name {key : String} {node : Value} {e : Entry}
    (h : (componentEntry s key node).outcome = .ok e) : e.name = s.nameOf key := by
  obtain ⟨m, errs, -, rfl, -⟩ := componentEntry_ok h
  rfl

end Description

/-! ## Operations -/

namespace Operation

/-- Whether a parameter is sent in the path or in the query. -/
def Parameter.isSent (p : Parameter) : Bool := p.location == .str "path" || p.location == .str "query"

/-- The node of a parameter's schema, empty when there is none. -/
def Parameter.node (p : Parameter) : Value :=
  if (p.entries.getD "schema").isGiven then p.entries.getD "schema" else .map []

/-- A reference without a value is met in an operation: where a parameter, its body or the response
to a success should be, or at some depth of one of their schemas. -/
inductive Hits (s : Setting) (op : Operation) (err : ReferenceError) : Prop
  | parameter {shared own : List Value} {node : Value} :
    listed (op.pathItem.getD "parameters") = .ok shared →
    listed (op.body.getD "parameters") = .ok own → node ∈ shared ++ own →
    Pointer.resolve s.document node = .error (.unresolved err) → Hits s op err
  | parameterSchema {ps : List Parameter} {p : Parameter} :
    parameters s.document op = .ok ps → p ∈ ps → p.isSent → Lowering.Hits s p.node err →
    Hits s op err
  | body : requestSchema? s.document op = .error (.unresolved err) → Hits s op err
  | bodySchema {node : Value} : requestSchema? s.document op = .ok (some node) →
    Lowering.Hits s node err → Hits s op err
  | response : successSchema? s.document (op.body.getD "responses") = .error (.unresolved err) →
    Hits s op err
  | responseSchema {node : Value} :
    successSchema? s.document (op.body.getD "responses") = .ok (some node) →
    Lowering.Hits s node err → Hits s op err

theorem orStop_ne_unresolved {α : Type} {x : Except Fault α} {err : ReferenceError} :
    orStop x ≠ .error (.unresolved err) := by
  cases x <;> exact nofun

/-! ### Parameters -/

theorem parameter?_unresolved {document node : Value} {err : ReferenceError} :
    parameter? document node = .error (.unresolved err) ↔
      Pointer.resolve document node = .error (.unresolved err) := by
  unfold parameter?
  rw [except_bind_eq_error]
  refine ⟨fun h => h.resolve_right ?_, .inl⟩
  rintro ⟨v, -, h⟩
  split at h
  · split at h
    · cases h
    · rcases except_bind_eq_error.mp h with h | ⟨name, -, h⟩
      · exact orStop_ne_unresolved h
      · rcases except_bind_eq_error.mp h with h | ⟨location, -, h⟩
        · exact orStop_ne_unresolved h
        · cases h
  · cases h

theorem addParameters_unresolved {document : Value} {err : ReferenceError} :
    ∀ {nodes : List Value} {acc : List Parameter},
      addParameters document acc nodes = .error (.unresolved err) →
        ∃ node ∈ nodes, Pointer.resolve document node = .error (.unresolved err)
  | [], acc, h => by cases h
  | node :: rest, acc, h => by
    rcases except_bind_eq_error.mp h with h | ⟨p, -, h⟩
    · exact ⟨node, List.mem_cons_self, parameter?_unresolved.mp h⟩
    · cases p <;> obtain ⟨n, hn, hr⟩ := addParameters_unresolved h <;>
        exact ⟨n, List.mem_cons_of_mem _ hn, hr⟩

theorem addParameters_ok {document : Value} {ps : List Parameter} {err : ReferenceError} :
    ∀ {nodes : List Value} {acc : List Parameter}, addParameters document acc nodes = .ok ps →
      ∀ node ∈ nodes, Pointer.resolve document node ≠ .error (.unresolved err)
  | node :: rest, acc, h, n, hn => by
    obtain ⟨p, hp, h⟩ := except_bind_eq_ok.mp h
    rcases List.mem_cons.mp hn with rfl | hn
    · rw [Ne, ← parameter?_unresolved, hp]
      exact nofun
    · cases p <;> exact addParameters_ok h n hn

theorem parameters_unresolved {op : Operation} {err : ReferenceError}
    (h : parameters s.document op = .error (.unresolved err)) : op.Hits s err := by
  rcases except_bind_eq_error.mp h with h | ⟨shared, hshared, h⟩
  · exact absurd h orStop_ne_unresolved
  rcases except_bind_eq_error.mp h with h | ⟨own, hown, h⟩
  · exact absurd h orStop_ne_unresolved
  obtain ⟨node, hn, hr⟩ := addParameters_unresolved h
  exact .parameter (mapError_eq_ok.mp hshared) (mapError_eq_ok.mp hown) hn hr

theorem parameters_ok {op : Operation} {ps : List Parameter} {shared own : List Value}
    {err : ReferenceError} (h : parameters s.document op = .ok ps)
    (hshared : listed (op.pathItem.getD "parameters") = .ok shared)
    (hown : listed (op.body.getD "parameters") = .ok own) :
    ∀ node ∈ shared ++ own, Pointer.resolve s.document node ≠ .error (.unresolved err) := by
  unfold parameters at h
  rw [hshared, hown] at h
  exact addParameters_ok h

theorem not_hits_of_lower {v : Value} {m : Modified} {err : ReferenceError}
    (h : (Lowering.lower s .operation v).outcome = .ok m) : ¬ Lowering.Hits s v err := by
  obtain ⟨errs, hl, -, hnil⟩ := (lower_reports .operation v).ok m h
  rw [hnil rfl] at hl
  exact fun hh => absurd (hl.mem_of_hits hh) List.not_mem_nil

theorem parameterProperties_unresolved {err : ReferenceError} :
    ∀ {ps : List Parameter} {acc : List (Atom × Property Schema)},
      (parameterProperties s acc ps).outcome = .error (.unresolved err) →
        ∃ p ∈ ps, p.isSent ∧ Lowering.Hits s p.node err
  | [], acc, h => by cases h
  | p :: rest, acc, h => by
    rw [parameterProperties] at h
    split at h
    · rename_i hsent
      rcases Logged.outcome_bind_eq_error h with h | ⟨m, -, h⟩
      · exact ⟨p, List.mem_cons_self, hsent, ((lower_reports _ _).unresolved err h).2⟩
      · obtain ⟨q, hq, hh⟩ := parameterProperties_unresolved h
        exact ⟨q, List.mem_cons_of_mem _ hq, hh⟩
    · obtain ⟨q, hq, hh⟩ := parameterProperties_unresolved h
      exact ⟨q, List.mem_cons_of_mem _ hq, hh⟩

theorem parameterProperties_ok {err : ReferenceError} {props : List (Atom × Property Schema)} :
    ∀ {ps : List Parameter} {acc : List (Atom × Property Schema)},
      (parameterProperties s acc ps).outcome = .ok props →
        ∀ p ∈ ps, p.isSent → ¬ Lowering.Hits s p.node err
  | p :: rest, acc, h, q, hq, hsent => by
    rw [parameterProperties] at h
    split at h
    · obtain ⟨m, hm, h⟩ := Logged.outcome_bind_eq_ok.mp h
      rcases List.mem_cons.mp hq with rfl | hq
      · exact not_hits_of_lower hm
      · exact parameterProperties_ok h q hq hsent
    · rename_i hp
      rcases List.mem_cons.mp hq with rfl | hq
      · exact absurd hsent hp
      · exact parameterProperties_ok h q hq hsent

theorem log_parameterProperties : ∀ (ps : List Parameter) (acc : List (Atom × Property Schema)),
    (parameterProperties s acc ps).log = []
  | [], _ => rfl
  | p :: rest, acc => by
    rw [parameterProperties]
    split
    · exact Logged.log_bind_eq_nil ((lower_reports _ _).log rfl) fun _ =>
        log_parameterProperties rest _
    · exact log_parameterProperties rest acc

/-! ### Bodies, responses and entries -/

theorem entryOf_unresolved {name category : String} {node : Option Value} {err : ReferenceError}
    (h : (entryOf s name category node).outcome = .error (.unresolved err)) :
    ∃ v, node = some v ∧ Lowering.Hits s v err := by
  cases node with
  | none => cases h
  | some v =>
    rcases Logged.outcome_bind_eq_error h with h | ⟨x, -, h⟩
    · exact ⟨v, rfl, (Lowering.schema_unresolved h).2⟩
    · cases h

theorem entryOf_ok {name category : String} {v : Value} {es : List Entry} {err : ReferenceError}
    (h : (entryOf s name category (some v)).outcome = .ok es) : ¬ Lowering.Hits s v err := by
  obtain ⟨x, hx, -⟩ := Logged.outcome_bind_eq_ok.mp h
  obtain ⟨m, hm, -⟩ := Logged.outcome_bind_eq_ok.mp hx
  exact not_hits_of_lower hm

theorem log_entryOf (name category : String) (node : Option Value) :
    (entryOf s name category node).log = [] := by
  cases node with
  | none => rfl
  | some v => exact Logged.log_bind_eq_nil (Lowering.log_schema v) fun _ => rfl

/-- An operation notes nothing of its own. -/
theorem log_entries (op : Operation) : (op.entries s).log = [] :=
  Logged.log_bind_eq_nil rfl fun _ => Logged.log_bind_eq_nil rfl fun _ =>
    Logged.log_bind_eq_nil (log_parameterProperties _ _) fun _ =>
      Logged.log_bind_eq_nil rfl fun _ => Logged.log_bind_eq_nil (log_entryOf _ _ _) fun _ =>
        Logged.log_bind_eq_nil rfl fun _ => Logged.log_bind_eq_nil (log_entryOf _ _ _) fun _ => rfl

/-- **An operation that ends with a reference without a value meets it.** -/
theorem entries_unresolved {op : Operation} {err : ReferenceError}
    (h : (op.entries s).outcome = .error (.unresolved err)) : op.Hits s err := by
  unfold entries at h
  rcases Logged.outcome_bind_eq_error h with h | ⟨name, -, h⟩
  · exact absurd h orStop_ne_unresolved
  rcases Logged.outcome_bind_eq_error h with h | ⟨ps, hps, h⟩
  · exact parameters_unresolved h
  rcases Logged.outcome_bind_eq_error h with h | ⟨props, -, h⟩
  · obtain ⟨p, hp, hsent, hh⟩ := parameterProperties_unresolved h
    exact .parameterSchema hps hp hsent hh
  rcases Logged.outcome_bind_eq_error h with h | ⟨body, hbody, h⟩
  · exact .body h
  rcases Logged.outcome_bind_eq_error h with h | ⟨request, -, h⟩
  · obtain ⟨v, rfl, hh⟩ := entryOf_unresolved h
    exact .bodySchema hbody hh
  rcases Logged.outcome_bind_eq_error h with h | ⟨success, hsuccess, h⟩
  · exact .response h
  rcases Logged.outcome_bind_eq_error h with h | ⟨response, -, h⟩
  · obtain ⟨v, rfl, hh⟩ := entryOf_unresolved h
    exact .responseSchema hsuccess hh
  · cases h

/-- **An operation that gives its entries meets no reference without a value.** -/
theorem entries_ok {op : Operation} {es : List Entry} (h : (op.entries s).outcome = .ok es)
    (err : ReferenceError) : ¬ op.Hits s err := by
  obtain ⟨name, -, h⟩ := Logged.outcome_bind_eq_ok.mp h
  obtain ⟨ps, hps, h⟩ := Logged.outcome_bind_eq_ok.mp h
  obtain ⟨props, hprops, h⟩ := Logged.outcome_bind_eq_ok.mp h
  obtain ⟨body, hbody, h⟩ := Logged.outcome_bind_eq_ok.mp h
  obtain ⟨request, hrequest, h⟩ := Logged.outcome_bind_eq_ok.mp h
  obtain ⟨success, hsuccess, h⟩ := Logged.outcome_bind_eq_ok.mp h
  obtain ⟨response, hresponse, -⟩ := Logged.outcome_bind_eq_ok.mp h
  rw [Logged.outcome_lift] at hps hbody hsuccess
  intro hh
  cases hh with
  | parameter hshared hown hn hr => exact parameters_ok hps hshared hown _ hn hr
  | parameterSchema hps' hp hsent hh =>
    rw [hps] at hps'
    cases hps'
    exact parameterProperties_ok hprops _ hp hsent hh
  | body hb =>
    rw [hbody] at hb
    cases hb
  | bodySchema hb hh =>
    rw [hbody] at hb
    cases hb
    exact entryOf_ok hrequest hh
  | response hb =>
    rw [hsuccess] at hb
    cases hb
  | responseSchema hb hh =>
    rw [hsuccess] at hb
    cases hb
    exact entryOf_ok hresponse hh

end Operation

end SchemaForge.OpenApi
