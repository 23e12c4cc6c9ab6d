import Mathlib.Data.List.Induction
import Mathlib.Data.List.Nodup
import SchemaForge.Proofs.OpenApi.Sites

/-!
# Parameters

The parameters of an operation are told apart by name and location, the properties for them by name.

* `Operation.StandsFor`: what a node stands for where a parameter is expected.
* `Operation.Merged`: parameters told apart by name and location, the last of each counting;
  **`merged_foldl`**: setting one after another gives these.
* `Operation.Represents`: a property says what a parameter says.
* **`Operation.parameters_kept`**: no parameter is lost exactly if no two have one name.
-/

namespace SchemaForge

/-! ## Properties by key -/

theorem sameKey_iff {a b : Atom} : a.sameKey b = true ↔ a.keyForm = b.keyForm := beq_iff_eq

/-- The keys of properties, each in the form that it shares with all that are the same key. -/
def keyForms (ps : List (Atom × Property Schema)) : List Atom := ps.map fun entry => entry.1.keyForm

section

variable {ps : List (Atom × Property Schema)} {key : Atom} {p : Property Schema}

theorem setProperty_of_not_mem (h : key.keyForm ∉ keyForms ps) :
    setProperty ps key p = ps ++ [(key, p)] := by
  induction ps with
  | nil => rfl
  | cons entry ps ih =>
    rw [keyForms, List.map_cons, List.mem_cons, not_or] at h
    rw [setProperty, if_neg fun hs => h.1 (sameKey_iff.mp hs).symm, ih h.2]
    rfl

theorem keyForms_setProperty (h : key.keyForm ∈ keyForms ps) :
    keyForms (setProperty ps key p) = keyForms ps := by
  induction ps with
  | nil => cases h
  | cons entry ps ih =>
    rw [setProperty]
    split
    · rfl
    · rename_i hs
      rw [keyForms, List.map_cons, List.mem_cons] at h
      have hrest := h.resolve_left fun he => hs (sameKey_iff.mpr he.symm)
      exact congrArg (entry.1.keyForm :: ·) (ih hrest)

theorem length_setProperty (h : key.keyForm ∈ keyForms ps) :
    (setProperty ps key p).length = ps.length := by
  have := congrArg List.length (keyForms_setProperty (p := p) h)
  simpa only [keyForms, List.length_map] using this

/-- Properties that are set one after another. -/
def setEach (ps : List (Atom × Property Schema)) :
    List (Atom × Property Schema) → List (Atom × Property Schema)
  | [] => ps
  | (key, p) :: l => setEach (setProperty ps key p) l

theorem setEach_of_nodup : ∀ {l ps : List (Atom × Property Schema)}, (keyForms (ps ++ l)).Nodup →
    setEach ps l = ps ++ l
  | [], ps, _ => (List.append_nil ps).symm
  | (key, p) :: l, ps, h => by
    have hfresh : key.keyForm ∉ keyForms ps := by
      rw [keyForms, List.map_append, List.map_cons, List.nodup_append] at h
      exact fun hm => h.2.2 _ hm _ List.mem_cons_self rfl
    rw [List.append_cons] at h ⊢
    rw [setEach, setProperty_of_not_mem hfresh]
    exact setEach_of_nodup h

theorem length_setEach_le : ∀ l ps : List (Atom × Property Schema),
    (setEach ps l).length ≤ ps.length + l.length
  | [], ps => Nat.le_refl _
  | (key, p) :: l, ps => by
    have hle := length_setEach_le l (setProperty ps key p)
    rw [setEach, List.length_cons]
    by_cases h : key.keyForm ∈ keyForms ps
    · rw [length_setProperty h] at hle
      omega
    · rw [setProperty_of_not_mem h, List.length_append, List.length_singleton] at hle
      rw [setProperty_of_not_mem h]
      omega

/-- **Setting loses no property just if no two have the same key.** -/
theorem length_setEach_iff : ∀ {l ps : List (Atom × Property Schema)}, (keyForms ps).Nodup →
    ((setEach ps l).length = ps.length + l.length ↔ (keyForms (ps ++ l)).Nodup) := by
  intro l ps hps
  refine ⟨fun h => ?_, fun h => by rw [setEach_of_nodup h, List.length_append]⟩
  induction l generalizing ps with
  | nil => rwa [List.append_nil]
  | cons entry l ih =>
    obtain ⟨key, p⟩ := entry
    rw [setEach, List.length_cons] at h
    by_cases hm : key.keyForm ∈ keyForms ps
    · have hle := length_setEach_le l (setProperty ps key p)
      rw [length_setProperty hm] at hle
      omega
    · rw [setProperty_of_not_mem hm] at h
      rw [List.append_cons]
      refine ih ?_ (by rw [h, List.length_append, List.length_singleton]; omega)
      rw [keyForms, List.map_append, List.map_singleton, List.nodup_append]
      refine ⟨hps, List.nodup_singleton _, fun a ha b hb hab => hm ?_⟩
      rw [List.mem_singleton] at hb
      exact hb ▸ hab ▸ ha

end

namespace OpenApi

/-! ## What a node is lowered to -/

namespace Lowering

variable {s : Setting} {site : Site}

/-- That a value may be absent is never said by its own node. -/
structure Present (m : Modified) : Prop where
  optional : m.optional = false
  nullish : m.nullish = false

theorem mapping_present {sub : Value → Lower Modified} {e : Mapping} {m : Modified}
    (h : (mapping s sub e).outcome = .ok m) : Present m := by
  unfold mapping at h
  generalize typesOf (e.getD "type") = types at h
  rcases types with ⟨nullAmong, _ | ⟨first, _ | ⟨second, rest⟩⟩⟩
  all_goals
    obtain ⟨_, -, h⟩ := Logged.outcome_bind_eq_ok.mp h
    cases h
    exact ⟨rfl, rfl⟩

theorem reference_present {sub : Value → Lower Modified} {e : Mapping} {ref : Value} {m : Modified}
    (hsub : ∀ v m, (sub v).outcome = .ok m → Present m)
    (h : (reference s site sub e ref).outcome = .ok m) : Present m := by
  unfold reference at h
  split at h
  · cases h
    exact ⟨rfl, rfl⟩
  · exact hsub _ m h
  · cases h
  · split at h
    · cases h
    · cases h
      exact ⟨rfl, rfl⟩

theorem lowerWithin_present : ∀ (depth : Nat) (v : Value) (m : Modified),
    (lowerWithin s site depth v).outcome = .ok m → Present m
  | 0, _, _, h => by cases h
  | depth + 1, v, m, h => by
    rw [lowerWithin] at h
    unfold node at h
    split at h
    · cases h
      exact ⟨rfl, rfl⟩
    · split at h
      · cases h
        exact ⟨rfl, rfl⟩
      · split at h
        · exact mapping_present h
        · exact reference_present (lowerWithin_present depth) h
    · cases h
      exact ⟨rfl, rfl⟩

end Lowering

namespace Operation

variable {s : Setting} {document : Value}

/-! ## Merged parameters -/

/-- What a node stands for where a parameter is expected: a mapping with a name is a parameter, and
everything else is none. -/
inductive StandsFor (document node : Value) : Option Parameter → Prop
  | parameter {e : Mapping} {name location : Atom} : Pointer.resolve document node = .ok (.map e) →
    Mapping.get? e "name" = some (.atom name) →
    (Mapping.get? e "in").getD (.str "") = .atom location →
    StandsFor document node (some { name, location, entries := e })
  | other {v : Value} : Pointer.resolve document node = .ok v →
    (∀ e, v = .map e → Mapping.get? e "name" = none) → StandsFor document node none

theorem parameter?_of_standsFor {node : Value} {q : Option Parameter}
    (h : StandsFor document node q) : parameter? document node = .ok q := by
  cases h with
  | parameter hr hname hlocation =>
    rw [parameter?, hr]
    simp only [bind, Except.bind, hname, hlocation]
    rfl
  | @other v hr hname =>
    rw [parameter?, hr]
    cases v with
    | map e => simp only [bind, Except.bind, hname e rfl, pure, Except.pure]
    | _ => rfl

/-- What tells a parameter from others: its name and its location, as keys. -/
def Parameter.identity (p : Parameter) : Atom × Atom := (p.name.keyForm, p.location.keyForm)

/-- The parameters of a list, each once: of those with one name and location the last counts. -/
structure Merged (found ps : List Parameter) : Prop where
  nodup : (ps.map Parameter.identity).Nodup
  covers : ∀ q ∈ found, q.identity ∈ ps.map Parameter.identity
  last : ∀ p ∈ ps, ∃ pre q post, found = pre ++ q :: post ∧ q.identity = p.identity ∧
    q.entries = p.entries ∧ ∀ r ∈ post, r.identity ≠ p.identity

/-- Setting a parameter puts it in the place of the one with its name and location, or at the
end. -/
theorem setParameter_cases (p : Parameter) : ∀ ps : List Parameter,
    (∃ pre q post, ps = pre ++ q :: post ∧ q.identity = p.identity ∧
      setParameter ps p = pre ++ { q with entries := p.entries } :: post) ∨
    ((∀ q ∈ ps, q.identity ≠ p.identity) ∧ setParameter ps p = ps ++ [p])
  | [] => .inr ⟨nofun, rfl⟩
  | q :: ps => by
    have hsame : (q.name.sameKey p.name && q.location.sameKey p.location) = true ↔
        q.identity = p.identity := by
      simp [sameKey_iff, Parameter.identity]
    rw [setParameter]
    split
    · rename_i h
      exact .inl ⟨[], q, ps, rfl, hsame.mp h, rfl⟩
    · rename_i h
      rcases setParameter_cases p ps with ⟨pre, r, post, rfl, hr, hset⟩ | ⟨hne, hset⟩
      · exact .inl ⟨q :: pre, r, post, rfl, hr, congrArg (q :: ·) hset⟩
      · exact .inr ⟨List.forall_mem_cons.mpr ⟨fun hq => h (hsame.mpr hq), hne⟩,
          congrArg (q :: ·) hset⟩

/-- A parameter that is told apart from one more keeps what counts for it. -/
theorem Merged.last_append {found ps : List Parameter} (h : Merged found ps) {p q : Parameter}
    (hp : p ∈ ps) (hne : q.identity ≠ p.identity) : ∃ pre r post, found ++ [q] = pre ++ r :: post ∧
      r.identity = p.identity ∧ r.entries = p.entries ∧ ∀ x ∈ post, x.identity ≠ p.identity := by
  obtain ⟨pre, r, post, rfl, hid, hentries, hpost⟩ := h.last p hp
  refine ⟨pre, r, post ++ [q], by simp, hid, hentries, fun x hx => ?_⟩
  rcases List.mem_append.mp hx with hx | hx
  · exact hpost x hx
  · exact List.mem_singleton.mp hx ▸ hne

theorem Merged.set {found ps : List Parameter} (h : Merged found ps) (q : Parameter) :
    Merged (found ++ [q]) (setParameter ps q) := by
  rcases setParameter_cases q ps with ⟨pre, r, post, rfl, hr, hset⟩ | ⟨hne, hset⟩
  · have hids : (setParameter (pre ++ r :: post) q).map Parameter.identity =
        (pre ++ r :: post).map Parameter.identity := by
      rw [hset, List.map_append, List.map_append]
      rfl
    have hapart : ∀ p ∈ pre ++ post, q.identity ≠ p.identity := by
      have hnodup := h.nodup
      rw [List.map_append, List.map_cons, List.nodup_middle, List.nodup_cons,
        ← List.map_append] at hnodup
      exact fun p hp heq => hnodup.1 (List.mem_map.mpr ⟨p, hp, (hr.trans heq).symm⟩)
    refine ⟨hids ▸ h.nodup, fun p hp => ?_, fun p hp => ?_⟩
    · rw [hids]
      rcases List.mem_append.mp hp with hp | hp
      · exact h.covers p hp
      · rw [List.mem_singleton.mp hp, ← hr]
        exact List.mem_map_of_mem (by simp)
    · rw [hset, List.mem_append, List.mem_cons] at hp
      rcases hp with hp | rfl | hp
      · exact h.last_append (by simp [hp]) (hapart p (by simp [hp]))
      · exact ⟨found, q, [], rfl, hr.symm, rfl, nofun⟩
      · exact h.last_append (by simp [hp]) (hapart p (by simp [hp]))
  · rw [hset]
    refine ⟨?_, fun p hp => ?_, fun p hp => ?_⟩
    · rw [List.map_append, List.map_singleton, List.nodup_append]
      refine ⟨h.nodup, List.nodup_singleton _, fun a ha b hb hab => ?_⟩
      obtain ⟨p, hp, rfl⟩ := List.mem_map.mp ha
      exact hne p hp (hab.trans (List.mem_singleton.mp hb))
    · rw [List.map_append, List.mem_append]
      rcases List.mem_append.mp hp with hp | hp
      · exact .inl (h.covers p hp)
      · exact .inr (List.mem_singleton.mp hp ▸ List.mem_singleton_self _)
    · rcases List.mem_append.mp hp with hp | hp
      · exact h.last_append hp (Ne.symm (hne p hp))
      · obtain rfl := List.mem_singleton.mp hp
        exact ⟨found, p, [], rfl, rfl, rfl, nofun⟩

/-- **Setting parameters one after another merges them.** -/
theorem merged_foldl (found : List Parameter) : Merged found (found.foldl setParameter []) := by
  induction found using List.reverseRecOn with
  | nil => exact ⟨List.nodup_nil, nofun, nofun⟩
  | append_singleton found q ih =>
    rw [List.foldl_append, List.foldl_cons, List.foldl_nil]
    exact ih.set q

theorem addParameters_eq {nodes : List Value} {qs : List (Option Parameter)}
    (h : List.Forall₂ (StandsFor document) nodes qs) : ∀ acc,
    addParameters document acc nodes = .ok (qs.reduceOption.foldl setParameter acc) := by
  induction h with
  | nil => exact fun _ => rfl
  | @cons node q nodes qs hq _ ih =>
    intro acc
    rw [addParameters, parameter?_of_standsFor hq]
    cases q with
    | none => exact ih acc
    | some p => exact ih (setParameter acc p)

/-- **The parameters of an operation are merged**, those of the path first. -/
theorem parameters_merged {op : Operation} {shared own : List Value} {qs : List (Option Parameter)}
    (hshared : listed (op.pathItem.getD "parameters") = .ok shared)
    (hown : listed (op.body.getD "parameters") = .ok own)
    (hnodes : List.Forall₂ (StandsFor document) (shared ++ own) qs) :
    ∃ ps, parameters document op = .ok ps ∧ Merged qs.reduceOption ps := by
  refine ⟨_, ?_, merged_foldl _⟩
  rw [parameters, hshared, hown]
  exact addParameters_eq hnodes []

/-! ## Properties of parameters -/

/-- Whether a parameter must be sent. -/
def Parameter.isRequired (p : Parameter) : Prop :=
  p.location = .str "path" ∨ p.entries.get? "required" = some (.bool true)

/-- A property says what a parameter says. One that is not required may be absent, and null only if
the schema of the parameter is nullable. -/
structure Represents (s : Setting) (p : Parameter) (entry : Atom × Property Schema) : Prop where
  name : entry.1 = p.name
  required : entry.2.required = true ↔ p.isRequired
  schema : ∃ m, (Lowering.lower s .operation p.node).outcome = .ok m ∧
    (p.isRequired → entry.2.schema = if m.nullable then m.schema.nullable else m.schema) ∧
    (¬ p.isRequired → entry.2.schema = m.schema ∧
      entry.2.absence = if m.nullable then .nullish else .optional)
  description : entry.2.description = p.entries.getD "description"

theorem Parameter.isRequired_iff {p : Parameter} :
    (Lowering.isTrue (p.entries.getD "required") || p.location == .str "path") = true ↔
      p.isRequired := by
  rw [Bool.or_eq_true, beq_iff_eq, or_comm, isRequired]
  refine or_congr_right ?_
  rcases h : p.entries.get? "required" with _ | v
  · rw [Mapping.getD_eq_null h]
    exact iff_of_false (by decide) nofun
  · rw [Mapping.getD_eq h, Option.some.injEq]
    unfold Lowering.isTrue
    split
    · simp
    · rename_i hv
      exact iff_of_false (by decide) hv

theorem parameterProperty_of_isRequired {p : Parameter} {m : Modified} (hm : Lowering.Present m)
    (h : p.isRequired) : parameterProperty p m = {
      schema := if m.nullable then m.schema.nullable else m.schema
      description := p.entries.getD "description" } := by
  unfold parameterProperty Modified.toProperty Modified.isNullish
  dsimp only
  rw [if_pos (Parameter.isRequired_iff.mpr h), hm.optional, hm.nullish]
  cases m.nullable <;> rfl

theorem parameterProperty_of_not_isRequired {p : Parameter} (m : Modified) (h : ¬ p.isRequired) :
    parameterProperty p m = {
      schema := m.schema
      required := false
      absence := if m.nullable then .nullish else .optional
      description := p.entries.getD "description" } := by
  unfold parameterProperty Modified.toProperty Modified.isNullish
  dsimp only
  rw [if_neg (mt Parameter.isRequired_iff.mp h)]
  cases m.nullable <;> rfl

theorem parameterProperty_represents {p : Parameter} {m : Modified}
    (h : (Lowering.lower s .operation p.node).outcome = .ok m) :
    Represents s p (p.name, parameterProperty p m) := by
  have hm := Lowering.lowerWithin_present _ _ _ h
  by_cases hr : p.isRequired
  · rw [parameterProperty_of_isRequired hm hr]
    exact ⟨rfl, iff_of_true rfl hr, ⟨m, h, fun _ => rfl, fun hn => absurd hr hn⟩, rfl⟩
  · rw [parameterProperty_of_not_isRequired m hr]
    exact ⟨rfl, iff_of_false nofun hr, ⟨m, h, fun hp => absurd hp hr, fun _ => ⟨rfl, rfl⟩⟩, rfl⟩

theorem parameterProperties_cons (p : Parameter) (ps : List Parameter)
    (acc : List (Atom × Property Schema)) : parameterProperties s acc (p :: ps) =
      if p.isSent then do
        let m ← Lowering.lower s .operation p.node
        parameterProperties s (setProperty acc p.name (parameterProperty p m)) ps
      else parameterProperties s acc ps :=
  rfl

/-- The properties of parameters are set one after another. -/
theorem parameterProperties_eq : ∀ {ps : List Parameter}, (∀ p ∈ ps, p.isSent →
    ∃ m, (Lowering.lower s .operation p.node).outcome = .ok m) → ∃ l,
    List.Forall₂ (Represents s) (ps.filter Parameter.isSent) l ∧
      ∀ acc, (parameterProperties s acc ps).outcome = .ok (setEach acc l)
  | [], _ => ⟨[], .nil, fun _ => rfl⟩
  | p :: ps, h => by
    rw [List.forall_mem_cons] at h
    obtain ⟨l, hl, heq⟩ := parameterProperties_eq h.2
    by_cases hsent : p.isSent = true
    · obtain ⟨m, hm⟩ := h.1 hsent
      refine ⟨(p.name, parameterProperty p m) :: l, ?_, fun acc => ?_⟩
      · rw [List.filter_cons_of_pos hsent]
        exact .cons (parameterProperty_represents hm) hl
      · rw [parameterProperties_cons, if_pos hsent]
        exact (Logged.outcome_bind hm _).trans (heq _)
    · refine ⟨l, by rwa [List.filter_cons_of_neg hsent], fun acc => ?_⟩
      rw [parameterProperties_cons, if_neg hsent]
      exact heq acc

theorem keyForms_of_represents {ps : List Parameter} {l : List (Atom × Property Schema)}
    (h : List.Forall₂ (Represents s) ps l) : keyForms l = ps.map fun p => p.name.keyForm := by
  induction h with
  | nil => rfl
  | cons h _ ih => exact congrArg₂ List.cons (congrArg Atom.keyForm h.name) ih

/-- The properties of an operation's parameters are those of the object among its entries. -/
theorem params_mem_entries {op : Operation} {ps : List Parameter}
    {props : List (Atom × Property Schema)} {es : List Entry}
    (hps : parameters s.document op = .ok ps)
    (hprops : (parameterProperties s [] ps).outcome = .ok props) (hne : props ≠ [])
    (h : (op.entries s).outcome = .ok es) : ∃ name, op.name = .ok name ∧
      Entry.of (name ++ "Params") (.object props .unset .null) (some "params") ∈ es := by
  obtain ⟨name, hname, h⟩ := Logged.outcome_bind_eq_ok.mp h
  obtain ⟨ps', hps', h⟩ := Logged.outcome_bind_eq_ok.mp h
  obtain rfl : ps' = ps := Except.ok.inj (hps'.symm.trans hps)
  obtain ⟨props', hprops', h⟩ := Logged.outcome_bind_eq_ok.mp h
  obtain rfl : props' = props := Except.ok.inj (hprops'.symm.trans hprops)
  obtain ⟨_, -, h⟩ := Logged.outcome_bind_eq_ok.mp h
  obtain ⟨_, -, h⟩ := Logged.outcome_bind_eq_ok.mp h
  obtain ⟨_, -, h⟩ := Logged.outcome_bind_eq_ok.mp h
  obtain ⟨_, -, h⟩ := Logged.outcome_bind_eq_ok.mp h
  obtain rfl := Except.ok.inj h
  refine ⟨name, mapError_eq_ok.mp hname, ?_⟩
  rw [if_neg (by simpa using hne)]
  simp

/-- **Main statement.** Parameters that are resolved are merged by name and location. If the schemas
of those that are sent in the path or in the query are lowered, they have as many properties as they
are exactly when no two of them have one name, and then each has its own, in order, in the object
among the entries. -/
theorem parameters_kept (s : Setting) (op : Operation) {shared own : List Value}
    {qs : List (Option Parameter)} (hshared : listed (op.pathItem.getD "parameters") = .ok shared)
    (hown : listed (op.body.getD "parameters") = .ok own)
    (hnodes : List.Forall₂ (StandsFor s.document) (shared ++ own) qs) :
    ∃ ps, parameters s.document op = .ok ps ∧ Merged qs.reduceOption ps ∧
      ((∀ p ∈ ps, p.isSent → ∃ m, (Lowering.lower s .operation p.node).outcome = .ok m) →
        ∃ props, (parameterProperties s [] ps).outcome = .ok props ∧
          (props.length = (ps.filter Parameter.isSent).length ↔
            ((ps.filter Parameter.isSent).map fun p => p.name.keyForm).Nodup) ∧
          (((ps.filter Parameter.isSent).map fun p => p.name.keyForm).Nodup →
            List.Forall₂ (Represents s) (ps.filter Parameter.isSent) props) ∧
          ∀ es, (op.entries s).outcome = .ok es → props ≠ [] → ∃ name, op.name = .ok name ∧
            Entry.of (name ++ "Params") (.object props .unset .null) (some "params") ∈ es) := by
  obtain ⟨ps, hps, hmerged⟩ := parameters_merged hshared hown hnodes
  refine ⟨ps, hps, hmerged, fun hlower => ?_⟩
  obtain ⟨l, hl, hprops⟩ := parameterProperties_eq hlower
  have hkeys := keyForms_of_represents hl
  have hcount := @length_setEach_iff l [] List.nodup_nil
  rw [List.nil_append, List.length_nil, Nat.zero_add, hkeys] at hcount
  refine ⟨setEach [] l, hprops [], hl.length_eq ▸ hcount, fun hnodup => ?_, fun es hes hne =>
    params_mem_entries hps (hprops []) hne hes⟩
  rw [setEach_of_nodup (by rwa [List.nil_append, hkeys])]
  exact hl

/-! ### A parameter of its own place, and two of one name -/

/-- The node of a parameter. -/
def parameterNode (name location : String) (type : String) : Value :=
  .map [(.str "name", .str name), (.str "in", .str location),
    (.str "schema", .map [(.str "type", .str type)])]

/-- An operation with two parameters of its path and one of its own. -/
def sharedOperation (own : Value) : Operation where
  method := "get"
  path := .str "/toys/{id}"
  pathItem := [(.str "parameters", .list [parameterNode "id" "path" "string",
    parameterNode "page" "query" "string"])]
  body := [(.str "parameters", .list [own])]

/-- A setting whose document has a parameter that can be referred to. -/
def sharedSetting : Setting where
  document := .map [(.str "page", parameterNode "page" "query" "integer")]
  scalars := []
  componentNames := []

/-- The operation's own parameter takes the place of that of the path, and none is lost. -/
theorem parameters_page : ∃ ps props, parameters sharedSetting.document
      (sharedOperation (.map [(.str "$ref", .str "#/page")])) = .ok ps ∧
    (parameterProperties sharedSetting [] ps).outcome = .ok props ∧ props.length = 2 ∧
    List.Forall₂ (Represents sharedSetting) (ps.filter Parameter.isSent) props := by
  obtain ⟨ps, hps, -, h⟩ := parameters_kept sharedSetting
    (sharedOperation (.map [(.str "$ref", .str "#/page")])) rfl rfl
    (.cons (.parameter rfl rfl rfl) (.cons (.parameter rfl rfl rfl)
      (.cons (.parameter rfl rfl rfl) .nil)))
  obtain ⟨id, page, rfl, hsent, hnames, hid, hpage⟩ : ∃ id page, ps = [id, page] ∧
      [id, page].filter Parameter.isSent = [id, page] ∧
      ([id, page].map fun p => p.name.keyForm) = [.str "id", .str "page"] ∧
      (∃ m, (Lowering.lower sharedSetting .operation id.node).outcome = .ok m) ∧
      ∃ m, (Lowering.lower sharedSetting .operation page.node).outcome = .ok m :=
    ⟨_, _, (Except.ok.inj hps).symm, rfl, rfl, ⟨_, rfl⟩, _, rfl⟩
  obtain ⟨props, hprops, hcount, hrepresents, -⟩ := h fun p hp _ => by
    rcases List.mem_pair.mp hp with rfl | rfl
    · exact hid
    · exact hpage
  have hnodup : (([id, page].filter Parameter.isSent).map fun p => p.name.keyForm).Nodup := by
    rw [hsent, hnames]
    decide
  refine ⟨_, props, hps, hprops, ?_, hrepresents hnodup⟩
  rw [hcount.mpr hnodup, hsent]
  rfl

/-- **Of two parameters with one name one is lost**, although they are told apart. -/
theorem parameter_lost : ∃ ps props, parameters sharedSetting.document
      (sharedOperation (parameterNode "id" "query" "integer")) = .ok ps ∧
    (ps.map Parameter.identity).Nodup ∧ (ps.filter Parameter.isSent).length = 3 ∧
    (parameterProperties sharedSetting [] ps).outcome = .ok props ∧ props.length = 2 :=
  ⟨_, _, rfl, by decide, rfl, rfl, rfl⟩

end Operation

end OpenApi

end SchemaForge
