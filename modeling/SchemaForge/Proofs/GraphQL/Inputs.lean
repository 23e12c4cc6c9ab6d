import SchemaForge.Proofs.GraphQL.Reaching

/-!
# Inputs and variables

Lowering an input never stops. It refers to the types of its parts by name, scalars apart, but
reaches none of them.

* `variableProperty_cases`: a variable has a property, or a note when its type is unknown.
* **`inputs_spec`**: the schema of the variables of an operation.
-/

namespace SchemaForge.GraphQL.Lowering

variable {c : Setting} {place : Place} {n : String}

theorem inputNamed_ok (t : NamedType) : ∃ x, (inputNamed c t).outcome = .ok x := by
  unfold inputNamed
  split
  · exact ⟨_, scalar_ok _ _⟩
  · exact ⟨_, rfl⟩

theorem inputNamed_refs {t : NamedType} {x : Schema} (h : (inputNamed c t).outcome = .ok x) :
    n ∈ x.refs ↔ n = t.name ∧ t.kind ≠ .scalar := by
  unfold inputNamed at h
  split at h
  · rename_i hs
    rw [scalar_refs h]
    simp [beq_iff_eq.mp hs]
  · rename_i hs
    obtain rfl := Except.ok.inj h
    have hs : t.kind ≠ .scalar := by simpa using hs
    simp [Schema.refs, hs]

theorem wrapped_inputNamed_ok (r : TypeRef) :
    ∃ m, (wrapped c.system (inputNamed c) r).outcome = .ok m := wrapped_ok inputNamed_ok r

theorem not_inputNamed_reaches (t : NamedType) : ¬ Reaches (inputNamed c t) n := by
  unfold inputNamed
  split
  · exact not_scalar_reaches _ _
  · exact List.not_mem_nil

theorem not_wrapped_inputNamed_reaches (r : TypeRef) :
    ¬ Reaches (wrapped c.system (inputNamed c) r) n := by
  rw [wrapped_reaches]
  rintro ⟨t, -, h⟩
  exact not_inputNamed_reaches t h

theorem inputObject_ok (t : NamedType) : ∃ x, (inputObject c t).outcome = .ok x := by
  have hproperty : ∀ f, ∃ p, (inputProperty c f).outcome = .ok p := by
    intro f
    obtain ⟨m, hm⟩ := wrapped_inputNamed_ok (c := c) f.type
    exact ⟨_, by rw [inputProperty, Logged.outcome_bind hm, Logged.outcome_pure]⟩
  obtain ⟨ps, hps⟩ : ∃ ps, (propertiesOf (t.fields?.getD []) (inputProperty c)).outcome = .ok ps :=
    propertiesOf_ok fun f _ => hproperty f
  exact ⟨_, by rw [inputObject, Logged.outcome_bind hps, Logged.outcome_pure]⟩

/-- An input object reaches no type. -/
theorem not_inputObject_reaches (t : NamedType) : ¬ Reaches (inputObject c t) n := by
  intro h
  obtain ⟨x, hx⟩ := inputObject_ok (c := c) t
  obtain ⟨ps, hps, -⟩ := Logged.outcome_bind_eq_ok.mp hx
  rw [Reaches, inputObject, Logged.log_bind_of_forall fun _ => rfl] at h
  obtain ⟨f, -, h⟩ := (propertiesOf_reaches hps).mp h
  rw [Reaches, inputProperty, Logged.log_bind_of_forall fun _ => rfl] at h
  exact not_wrapped_inputNamed_reaches f.type h

/-! ## Variables -/

/-- **What lowering a variable can do.** Where its type is known it has a property, which refers to
the named type unless that is a scalar. -/
theorem variableProperty_cases (c : Setting) (place : Place) (v : VariableDefinition) :
    (c.system.knows v.type = true ∧ ∃ p,
      (variableProperty c place v).outcome = .ok (some (v.name, p)) ∧
      ∀ n, n ∈ p.schema.refs ↔
        n = v.type.name ∧ ∃ t, c.system.find? n = some t ∧ t.kind ≠ .scalar) ∨
    (c.system.knows v.type = false ∧ (variableProperty c place v).outcome = .ok none ∧
      (variableProperty c place v).log = [.note (.unknownVariableType v.name place)]) := by
  by_cases hknown : c.system.knows v.type = true
  · refine .inl ⟨hknown, ?_⟩
    obtain ⟨t, ht⟩ := Option.isSome_iff_exists.mp hknown
    obtain ⟨m, hm⟩ := wrapped_inputNamed_ok (c := c) v.type
    obtain ⟨x, hx, hrefs⟩ := wrapped_build hm ht
    have hname : t.name = v.type.name := TypeSystem.name_of_find? ht
    have hnamed : ∀ n, n ∈ m.schema.refs ↔
        n = v.type.name ∧ ∃ t, c.system.find? n = some t ∧ t.kind ≠ .scalar := by
      intro n
      rw [hrefs, inputNamed_refs hx, hname]
      refine and_congr_right fun hn => ?_
      rw [hn, ht]
      simp
    unfold variableProperty
    rw [if_pos hknown, Logged.outcome_bind hm]
    refine ⟨_, rfl, fun n => ?_⟩
    rw [Modified.refs_toProperty, ← hnamed]
    split
    · rfl
    · split <;> rfl
  · refine .inr ⟨by simpa using hknown, ?_⟩
    unfold variableProperty
    rw [if_neg hknown]
    exact ⟨Logged.outcome_bind (Logged.outcome_note _) _,
      Logged.log_bind_of_forall fun _ => rfl⟩

/-- Variables reach no type. -/
theorem not_inputs_reaches (vs : List VariableDefinition) : ¬ Reaches (inputs c place vs) n := by
  intro h
  rw [Reaches, inputs, Logged.log_bind_of_forall fun _ => rfl] at h
  obtain ⟨v, -, h⟩ := Logged.mem_log_mapM h
  unfold variableProperty at h
  split at h
  · rw [Logged.log_bind_of_forall fun _ => rfl] at h
    exact not_wrapped_inputNamed_reaches v.type h
  · rw [Logged.log_bind_of_forall fun _ => rfl, Logged.log_note, List.mem_singleton] at h
    cases h

/-- **The schema of the variables of an operation.** It has a property for each variable of known
type; the others are noted. -/
theorem inputs_spec (c : Setting) (place : Place) (vs : List VariableDefinition) :
    ∃ properties, (inputs c place vs).outcome = .ok (.object properties .unset .null) ∧
      (∀ entry ∈ properties, ∃ v ∈ vs, entry.1 = .str v.name ∧ c.system.knows v.type = true ∧
        ∀ n ∈ entry.2.schema.refs,
          n = v.type.name ∧ ∃ t, c.system.find? n = some t ∧ t.kind ≠ .scalar) ∧
      (∀ v ∈ vs, c.system.knows v.type = true → Atom.str v.name ∈ properties.map (·.1)) ∧
      ∀ v ∈ vs, c.system.knows v.type = false →
        .note (.unknownVariableType v.name place) ∈ (inputs c place vs).log := by
  obtain ⟨found, hfound, -⟩ := Logged.outcome_mapM_of_forall (R := fun _ _ => True) (l := vs)
    (f := variableProperty c place) fun v _ => by
      rcases variableProperty_cases c place v with ⟨-, p, hp, -⟩ | ⟨-, hp, -⟩
      · exact ⟨_, hp, trivial⟩
      · exact ⟨_, hp, trivial⟩
  have hall := Logged.outcome_mapM_eq_ok.mp hfound
  refine ⟨_, by rw [inputs, Logged.outcome_bind hfound]; rfl, fun entry hentry => ?_,
    fun v hv hknown => ?_, fun v hv hunknown => ?_⟩
  · rcases mem_foldl_setProperty hentry with hentry | ⟨x, hx, rfl⟩
    · cases hentry
    · obtain ⟨o, ho, hid⟩ := List.mem_filterMap.mp hx
      obtain ⟨v, hv, hprop⟩ := exists_of_mem_right hall ho
      rcases variableProperty_cases c place v with ⟨hknown, p, hp, hrefs⟩ | ⟨-, hp, -⟩
      · rw [hp] at hprop
        obtain rfl := Except.ok.inj hprop
        obtain rfl : (v.name, p) = x := Option.some.inj hid
        exact ⟨v, hv, rfl, hknown, fun n hn => (hrefs n).mp hn⟩
      · rw [hp] at hprop
        obtain rfl := Except.ok.inj hprop
        cases hid
  · obtain ⟨o, ho, hprop⟩ := exists_of_mem_left hall hv
    rcases variableProperty_cases c place v with ⟨-, p, hp, -⟩ | ⟨hnot, -⟩
    · rw [hp] at hprop
      obtain rfl := Except.ok.inj hprop
      exact mem_keys_foldl_setProperty.mpr
        (.inr ⟨(v.name, p), List.mem_filterMap.mpr ⟨_, ho, rfl⟩, rfl⟩)
    · rw [hknown] at hnot
      cases hnot
  · rcases variableProperty_cases c place v with ⟨hnot, -⟩ | ⟨-, -, hlog⟩
    · rw [hunknown] at hnot
      cases hnot
    · rw [inputs, Logged.log_bind_of_forall fun _ => rfl, Logged.log_mapM hfound, List.mem_flatMap]
      exact ⟨v, hv, by rw [hlog]; exact List.mem_singleton_self _⟩

end SchemaForge.GraphQL.Lowering
