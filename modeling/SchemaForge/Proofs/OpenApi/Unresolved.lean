import SchemaForge.Proofs.OpenApi.Parts

/-!
# References without a value

A reference without a value is met at any depth of a node. In a component it stands for unknown and
is noted; in an operation it ends the step.

* `Lowering.Lowers`: what a node is lowered to, with the references without a value that are met on
  the way, each standing for unknown.
* `Lowering.Hits`: a reference without a value is met at some depth of a node.
* **`Lowering.lowerWithin_reports`**: what lowering does with such references at each of the two
  places.
-/

namespace SchemaForge.OpenApi.Lowering

variable {s : Setting} {key : String} {v : Value} {m : Modified} {err : ReferenceError}

/-! ## What is met -/

mutual

/-- What a node is lowered to, with the references without a value that are met on the way, in
order. -/
inductive Lowers (s : Setting) : Value → Modified → List ReferenceError → Prop
  | never : Lowers s (.bool false) { schema := .never } []
  | anything {v : Value} : (∀ e, v ≠ .map e) → v ≠ .bool false →
    Lowers s v { schema := .unknown } []
  | empty : Lowers s (.map []) { schema := .unknown } []
  | component {e : Mapping} {name : String} : e.getD "$ref" ≠ .null →
    target s (.map e) (e.getD "$ref") = .ok (.component name) →
    Lowers s (.map e) { schema := .ref name .null, nullable := isTrue (e.getD "nullable") } []
  | followed {e : Mapping} {v : Value} {m : Modified} {errs : List ReferenceError} :
    e.getD "$ref" ≠ .null → target s (.map e) (e.getD "$ref") = .ok (.node v) →
    Lowers s v m errs → Lowers s (.map e) m errs
  | missing {e : Mapping} {err : ReferenceError} : e.getD "$ref" ≠ .null →
    target s (.map e) (e.getD "$ref") = .error (.unresolved err) →
    Lowers s (.map e) { schema := .unknown } [err]
  | parts {e : Mapping} {build : List Modified → Modified} {ms : List Modified}
    {errs : List ReferenceError} : e ≠ [] → e.getD "$ref" = .null →
    (∀ sub, mapping s sub e = build <$> (parts s e).mapM sub) →
    LowersAll s (parts s e) ms errs → Lowers s (.map e) (build ms) errs

/-- What the nodes of a list are lowered to, with the references without a value that are met. -/
inductive LowersAll (s : Setting) : List Value → List Modified → List ReferenceError → Prop
  | nil : LowersAll s [] [] []
  | cons {v : Value} {vs : List Value} {m : Modified} {ms : List Modified}
    {errs errs' : List ReferenceError} : Lowers s v m errs → LowersAll s vs ms errs' →
    LowersAll s (v :: vs) (m :: ms) (errs ++ errs')

end

/-- A reference without a value is met at some depth of a node. -/
inductive Hits (s : Setting) : Value → ReferenceError → Prop
  | missing {e : Mapping} {err : ReferenceError} : e.getD "$ref" ≠ .null →
    target s (.map e) (e.getD "$ref") = .error (.unresolved err) → Hits s (.map e) err
  | followed {e : Mapping} {v : Value} {err : ReferenceError} : e.getD "$ref" ≠ .null →
    target s (.map e) (e.getD "$ref") = .ok (.node v) → Hits s v err → Hits s (.map e) err
  | part {e : Mapping} {v : Value} {err : ReferenceError} : e ≠ [] → e.getD "$ref" = .null →
    v ∈ parts s e → Hits s v err → Hits s (.map e) err

theorem LowersAll.exists_of_mem {vs : List Value} {ms : List Modified}
    {errs : List ReferenceError} (h : LowersAll s vs ms errs) (hv : v ∈ vs) :
    ∃ m errs', Lowers s v m errs' ∧ errs' ⊆ errs := by
  induction vs generalizing ms errs with
  | nil => cases hv
  | cons w vs ih =>
    cases h with
    | cons hw hrest =>
      rcases List.mem_cons.mp hv with rfl | hv
      · exact ⟨_, _, hw, List.subset_append_left _ _⟩
      · obtain ⟨m, errs', hl, hsub⟩ := ih hrest hv
        exact ⟨m, errs', hl, List.Subset.trans hsub (List.subset_append_right _ _)⟩

/-- **Every reference without a value is met.** -/
theorem Lowers.mem_of_hits (hh : Hits s v err) : ∀ {m : Modified} {errs : List ReferenceError},
    Lowers s v m errs → err ∈ errs := by
  have hnil : Mapping.getD [] "$ref" = .null := rfl
  induction hh with
  | missing hr ht =>
    intro m errs h
    cases h with
    | anything hm => exact absurd rfl (hm _)
    | empty => exact absurd hnil hr
    | component _ ht' => rw [ht] at ht'; cases ht'
    | followed _ ht' => rw [ht] at ht'; cases ht'
    | missing _ ht' =>
      rw [ht] at ht'
      cases ht'
      exact List.mem_singleton.mpr rfl
    | parts _ hr' => exact absurd hr' hr
  | followed hr ht _ ih =>
    intro m errs h
    cases h with
    | anything hm => exact absurd rfl (hm _)
    | empty => exact absurd hnil hr
    | component _ ht' => rw [ht] at ht'; cases ht'
    | followed _ ht' hv =>
      rw [ht] at ht'
      cases ht'
      exact ih hv
    | missing _ ht' => rw [ht] at ht'; cases ht'
    | parts _ hr' => exact absurd hr' hr
  | part he hr hv _ ih =>
    intro m errs h
    cases h with
    | anything hm => exact absurd rfl (hm _)
    | empty => exact absurd rfl he
    | component hr' => exact absurd hr hr'
    | followed hr' => exact absurd hr hr'
    | missing hr' => exact absurd hr hr'
    | parts _ _ _ hall =>
      obtain ⟨m, errs', hl, hsub⟩ := hall.exists_of_mem hv
      exact hsub (ih hl)

/-! ## What lowering does with it -/

/-- What is noted at a site of the references without a value that are met. -/
def notes : Site → List ReferenceError → List Note
  | .component key, errs => errs.map (.unresolvedInComponent key)
  | .operation, _ => []

variable {site : Site} {sub : Value → Lower Modified}

theorem notes_append (errs errs' : List ReferenceError) :
    notes site (errs ++ errs') = notes site errs ++ notes site errs' := by
  cases site
  · exact List.map_append
  · rfl

/-- How a step lowers a node at a site: it ends with what the node is lowered to and notes what is
met, and only at an operation, where nothing is noted, does it end with a reference without a
value. -/
structure Reports (s : Setting) (site : Site) (v : Value) (x : Lower Modified) : Prop where
  ok : ∀ m, x.outcome = .ok m →
    ∃ errs, Lowers s v m errs ∧ x.log = notes site errs ∧ (site = .operation → errs = [])
  unresolved : ∀ err, x.outcome = .error (.unresolved err) → site = .operation ∧ Hits s v err
  log : site = .operation → x.log = []

namespace Reports

theorem fault (f : Fault) : Reports s site v (Logged.stop (.fault f)) where
  ok _ h := by cases h
  unresolved _ h := by cases h
  log _ := rfl

theorem pure (h : Lowers s v m []) : Reports s site v (Pure.pure m) where
  ok _ h' := by
    cases h'
    exact ⟨[], h, by cases site <;> rfl, fun _ => rfl⟩
  unresolved _ h := by cases h
  log _ := rfl

theorem mapM (h : ∀ v, Reports s site v (sub v)) : ∀ {vs : List Value} {ms : List Modified},
    (vs.mapM sub).outcome = .ok ms → ∃ errs, LowersAll s vs ms errs ∧
      (vs.mapM sub).log = notes site errs ∧ (site = .operation → errs = [])
  | [], ms, hm => by
    rw [List.mapM_nil] at hm ⊢
    cases hm
    exact ⟨[], .nil, by cases site <;> rfl, fun _ => rfl⟩
  | v :: vs, ms, hm => by
    rw [List.mapM_cons] at hm ⊢
    obtain ⟨m, hv, hm⟩ := Logged.outcome_bind_eq_ok.mp hm
    obtain ⟨rest, hvs, hm⟩ := Logged.outcome_bind_eq_ok.mp hm
    obtain rfl := Except.ok.inj hm
    obtain ⟨errs, hl, hlog, hnil⟩ := (h v).ok m hv
    obtain ⟨errs', hl', hlog', hnil'⟩ := mapM h hvs
    refine ⟨errs ++ errs', .cons hl hl', ?_, fun hs => ?_⟩
    · rw [Logged.log_bind hv, Logged.log_bind hvs, Logged.log_pure, List.append_nil, hlog, hlog',
        notes_append]
    · rw [hnil hs, hnil' hs, List.append_nil]

theorem mapping (h : ∀ v, Reports s site v (sub v)) {e : Mapping} (he : e ≠ [])
    (hr : e.getD "$ref" = .null) : Reports s site (.map e) (mapping s sub e) := by
  rcases mapping_cases s e with ⟨f, hstop⟩ | ⟨build, -, hstep⟩
  · rw [hstop]
    exact fault f
  rw [hstep, map_eq_pure_bind]
  refine ⟨fun m hm => ?_, fun err hu => ?_, fun hs => ?_⟩
  · obtain ⟨ms, hms, hm⟩ := Logged.outcome_bind_eq_ok.mp hm
    obtain rfl := Except.ok.inj hm
    obtain ⟨errs, hall, hlog, hnil⟩ := mapM h hms
    refine ⟨errs, .parts he hr hstep hall, ?_, hnil⟩
    rw [Logged.log_bind hms, Logged.log_pure, List.append_nil, hlog]
  · rcases Logged.outcome_bind_eq_error hu with hu | ⟨ms, -, hu⟩
    · obtain ⟨v, hv, hu⟩ := Logged.outcome_mapM_eq_error hu
      obtain ⟨hs, hh⟩ := (h v).unresolved err hu
      exact ⟨hs, .part he hr hv hh⟩
    · cases hu
  · refine Logged.log_bind_eq_nil (Logged.log_mapM_eq_nil fun v _ => (h v).log hs) fun _ => rfl

theorem reference (h : ∀ v, Reports s site v (sub v)) {e : Mapping} (hr : e.getD "$ref" ≠ .null) :
    Reports s site (.map e) (reference s site sub e (e.getD "$ref")) := by
  unfold Lowering.reference
  rcases ht : target s (.map e) (e.getD "$ref") with (f | err) | (name | v)
  · exact fault f
  · cases site with
    | component key =>
      refine ⟨fun m hm => ?_, fun err hu => (by cases hu), fun hs => (by cases hs)⟩
      cases hm
      exact ⟨[err], .missing hr ht, rfl, fun hs => (by cases hs)⟩
    | operation =>
      refine ⟨fun m hm => (by cases hm), fun err' hu => ?_, fun _ => rfl⟩
      cases hu
      exact ⟨rfl, .missing hr ht⟩
  · exact pure (.component hr ht)
  · refine ⟨fun m hm => ?_, fun err hu => ?_, (h v).log⟩
    · obtain ⟨errs, hl, hlog, hnil⟩ := (h v).ok m hm
      exact ⟨errs, .followed hr ht hl, hlog, hnil⟩
    · obtain ⟨hs, hh⟩ := (h v).unresolved err hu
      exact ⟨hs, .followed hr ht hh⟩

/-- The step for a node, given the step for the nodes below it. -/
theorem node (h : ∀ v, Reports s site v (sub v)) (v : Value) :
    Reports s site v (node s site sub v) := by
  unfold Lowering.node
  split
  · exact pure .never
  · rename_i e
    split
    · rename_i he
      rw [List.isEmpty_iff.mp he]
      exact pure .empty
    · rename_i he
      split
      · rename_i hr
        exact mapping h (fun h => he (List.isEmpty_iff.mpr h)) hr
      · rename_i hr
        exact reference h hr
  · rename_i hf hm
    exact pure (.anything hm hf)

end Reports

/-- **What lowering does with references without a value**, at whatever depth they stand. -/
theorem lowerWithin_reports : ∀ (depth : Nat) (v : Value),
    Reports s site v (lowerWithin s site depth v)
  | 0, _ => .fault .endless
  | depth + 1, v => .node (lowerWithin_reports depth) v

end SchemaForge.OpenApi.Lowering
