import SchemaForge.Proofs.Entry.Sort
import SchemaForge.Proofs.Name.TypeName
import SchemaForge.Proofs.OpenApi.Compilation
import SchemaForge.Proofs.OpenApi.Components

/-!
# Results are closed and well named

* `Description.FromComponent`: the entry of the component of a key.
* `Description.Origin`: what an entry was lowered from, with its schema where every component goes by
  its own key.
* **`compile_closed`**: names are distinct type names, every component has its entry, and every
  reference names the entry of the component that it was written for.
-/

namespace SchemaForge.OpenApi.Description

variable {document : Value} {c : Choices} {d : Description} {r : Result}

/-! ## Names of components -/

theorem names_isTypeName (keys : List String) : ∀ n : Naming,
    (∀ key name, n.names.lookup key = some name → Name.isTypeName name) →
    ∀ key name, (keys.foldl Naming.add n).names.lookup key = some name → Name.isTypeName name := by
  induction keys with
  | nil => exact fun n h => h
  | cons k keys ih =>
    refine fun n h => ih (n.add k) fun key name hk => ?_
    have hadd : ∃ unique, (n.add k).names = setName n.names k unique ∧ Name.isTypeName unique := by
      rw [Naming.add]
      split
      · exact ⟨_, rfl, Name.typeOf_isTypeName k⟩
      · refine ⟨_, rfl, ?_⟩
        obtain ⟨i, -, hname, -⟩ := freeName_first (Name.typeOf k) (n.owners.map (·.1))
          n.owners.length 2
        rw [hname]
        exact Name.isTypeName_append (Name.typeOf_isTypeName k)
          (Name.isAlphanum_of_mem_toString _)
    obtain ⟨unique, hnames, hunique⟩ := hadd
    rw [hnames, lookup_setName] at hk
    split at hk
    · cases hk
      exact hunique
    · exact h key name hk

/-- What the names of components are to a description. -/
structure Named (d : Description) : Prop where
  component : ∀ key, (d.setting.componentNames.lookup key).isSome ↔ (d.component? key).isSome
  key_eq : ∀ key key' name, d.setting.componentNames.lookup key = some name →
    d.setting.componentNames.lookup key' = some name → key = key'
  isTypeName : ∀ key name, d.setting.componentNames.lookup key = some name → Name.isTypeName name

/-- **Every component has a name, no two the same, and all of them type names.** -/
theorem ofDocument_named (h : ofDocument document c = .ok d) {components : Mapping}
    (hc : d.components = .map components) : Named d := by
  obtain ⟨-, ⟨keys, hkeys, hnames⟩, -⟩ := ofDocument_spec h
  obtain ⟨hdist, -⟩ := distinct_foldl_add keys {} ⟨List.nodup_nil, by simp⟩
  refine ⟨fun key => ⟨fun hk => ?_, fun hk => ?_⟩, fun key key' name hk hk' => ?_, ?_⟩
  · rw [hnames] at hk
    have hmem := (mem_of_foldl_add keys {} key hk).resolve_right (by simp)
    rw [hc] at hkeys
    rw [component?, hc]
    dsimp only
    rw [Mapping.get?_isSome, mapM_componentKey hkeys]
    exact List.mem_map_of_mem hmem
  · obtain ⟨node, hnode⟩ := Option.isSome_iff_exists.mp hk
    obtain ⟨name, hname, -⟩ := component_named h hnode
    rw [hname]
    rfl
  · rw [hnames] at hk hk'
    exact hdist.key_eq hk hk'
  · rw [hnames]
    exact names_isTypeName keys {} (by simp)

theorem Named.lookup_nameOf (hn : Named d) {key : String} (hk : (d.component? key).isSome) :
    d.setting.componentNames.lookup key = some (d.setting.nameOf key) := by
  obtain ⟨name, hname⟩ := Option.isSome_iff_exists.mp ((hn.component key).mpr hk)
  rw [Setting.nameOf, hname]
  rfl

/-- Components are told apart by their names. -/
theorem Named.eq_of_nameOf (hn : Named d) {key key' : String} (hk : (d.component? key).isSome)
    (hk' : (d.component? key').isSome) (h : d.setting.nameOf key = d.setting.nameOf key') :
    key = key' :=
  hn.key_eq key key' _ (hn.lookup_nameOf hk) (h ▸ hn.lookup_nameOf hk')

/-! ## Where entries come from -/

/-- The entry of the component of a key. -/
def FromComponent (d : Description) (key : String) (e : Entry) : Prop :=
  ∃ node, d.component? key = some node ∧ (componentEntry d.setting key node).outcome = .ok e

theorem FromComponent.name {key : String} {e : Entry} (h : d.FromComponent key e) :
    e.name = d.setting.nameOf key := by
  obtain ⟨node, -, he⟩ := h
  exact componentEntry_name he

theorem FromComponent.isSome {key : String} {e : Entry} (h : d.FromComponent key e) :
    (d.component? key).isSome := by
  obtain ⟨node, hk, -⟩ := h
  rw [hk]
  rfl

theorem FromComponent.eq {key : String} {e e' : Entry} (h : d.FromComponent key e)
    (h' : d.FromComponent key e') : e = e' := by
  obtain ⟨node, hk, he⟩ := h
  obtain ⟨node', hk', he'⟩ := h'
  rw [hk] at hk'
  cases hk'
  exact Except.ok.inj (he.symm.trans he')

/-- What an entry was lowered from, with its schema `x` where every component goes by its own key:
there each reference is the key that it was written for. -/
inductive Origin (d : Description) (e : Entry) (x : Schema) : Prop
  | component {key : String} {node : Value} : d.component? key = some node →
    (componentEntry d.setting key node).outcome = .ok e →
    (Lowering.schema d.setting.keyed (.component key) node).outcome = .ok x → Origin d e x
  | operation {op : Operation} {es es' : List Entry} {i : Nat} {e' : Entry} : op ∈ d.operations →
    (op.entries d.setting).outcome = .ok es → es[i]? = some e →
    (op.entries d.setting.keyed).outcome = .ok es' → es'[i]? = some e' → e'.schema = x →
    Origin d e x

/-- **The same under keys and under names.** The references of an entry are the names of the
components whose keys they were written for. -/
structure Traced (d : Description) (e : Entry) (x : Schema) : Prop where
  origin : Origin d e x
  schema : e.schema = x.mapRefs d.setting.nameOf
  keys : ∀ key ∈ x.refs, (d.setting.componentNames.lookup key).isSome
  isOf : e.IsOf

theorem FromComponent.traced {key : String} {e : Entry} (h : d.FromComponent key e) :
    ∃ x, Traced d e x := by
  obtain ⟨node, hk, he⟩ := h
  obtain ⟨y, hy, hof⟩ := Logged.outcome_bind_eq_ok.mp he
  obtain rfl := Except.ok.inj hof
  have hr := congrArg Logged.outcome
    (Lowering.schema_renamed d.setting.renames_keyed (.component key) node)
  rw [hy, map_eq_pure_bind] at hr
  obtain ⟨x, hx, hxy⟩ := Logged.outcome_bind_eq_ok.mp hr.symm
  exact ⟨x, .component hk he hx, (Except.ok.inj hxy).symm,
    fun name hname => Setting.isSome_of_keyed (schema_refs hx hname), rfl⟩

theorem traced_of_operation {op : Operation} {es : List Entry} {e : Entry} (hop : op ∈ d.operations)
    (h : (op.entries d.setting).outcome = .ok es) (he : e ∈ es) : ∃ x, Traced d e x := by
  have hr := congrArg Logged.outcome (Operation.entries_renamed d.setting.renames_keyed op)
  rw [h, map_eq_pure_bind] at hr
  obtain ⟨es', hes', hmap⟩ := Logged.outcome_bind_eq_ok.mp hr.symm
  obtain rfl := Except.ok.inj hmap
  obtain ⟨i, hi⟩ := List.getElem?_of_mem he
  obtain ⟨e', he', rfl⟩ : ∃ e', es'[i]? = some e' ∧ Entry.rename d.setting.nameOf e' = e := by
    rw [List.getElem?_map] at hi
    exact Option.map_eq_some_iff.mp hi
  exact ⟨e'.schema, .operation hop h hi hes' he' rfl, rfl,
    fun name hname => Setting.isSome_of_keyed (entries_refs hes' (List.mem_of_getElem? he') hname),
    rfl⟩

/-! ## Runs -/

/-- The first component of a name is the one of its key. -/
theorem fromComponent_of_first {components before after : Mapping} {key : Atom} {node : Value}
    {e : Entry} (hc : d.components = .map components)
    (hstr : ∀ entry ∈ components, ∃ k, entry.1 = .str k)
    (hsplit : components = before ++ (key, node) :: after)
    (he : (componentEntry d.setting key.display node).outcome = .ok e)
    (hbefore : ∀ entry ∈ before, d.setting.nameOf entry.1.display ≠ e.name) :
    d.FromComponent key.display e := by
  obtain ⟨k, rfl⟩ : ∃ k, key = .str k := hstr (key, node) (by rw [hsplit]; simp)
  refine ⟨node, ?_, he⟩
  change d.component? k = some node
  rw [component?, hc]
  dsimp only
  rw [hsplit]
  clear hsplit
  induction before with
  | nil => rw [List.nil_append, Mapping.get?_cons, if_pos rfl]
  | cons entry before ih =>
    rw [List.forall_mem_cons] at hbefore
    rw [List.cons_append, Mapping.get?_cons, if_neg, ih hbefore.2]
    intro ha
    rw [ha] at hbefore
    exact hbefore.1 (componentEntry_name he).symm

theorem componentKeys_str {components : Mapping} {keys : List String}
    (h : componentKeys (.map components) = .ok keys) :
    ∀ entry ∈ components, ∃ k, entry.1 = .str k := by
  intro entry hentry
  have hm := List.mem_map_of_mem (f := (·.1)) hentry
  rw [mapM_componentKey h] at hm
  obtain ⟨k, -, hk⟩ := List.mem_map.mp hm
  exact ⟨k, hk.symm⟩

theorem tidy_start (h : ofDocument document c = .ok d) : Tidy { description := d } :=
  ⟨List.nodup_nil, by simp [(ofDocument_fresh h).1]⟩

/-- Where the entries of a compilation come from: a name belongs to one of them, and every component
has its own. -/
structure Sources (d : Description) (entries : List Entry) : Prop where
  nodup : (entries.map (·.name)).Nodup
  origin : ∀ e ∈ entries, (∃ key, d.FromComponent key e) ∨
    ∃ op ∈ d.operations, ∃ es, (op.entries d.setting).outcome = .ok es ∧ e ∈ es
  component : ∀ key, (d.component? key).isSome → ∃ e ∈ entries, d.FromComponent key e

/-- **Where the entries of a run come from.** -/
theorem run_sources (h : ofDocument document c = .ok d) {components : Mapping} {p q : Progress}
    (hc : d.components = .map components)
    (hp : compileComponents { description := d } components = (p, .ok ()))
    (hq : compileOperations p p.description.operations = (q, .ok ())) : Sources d q.entries := by
  have hn := ofDocument_named h hc
  obtain ⟨-, ⟨keys, hkeys, -⟩, -⟩ := ofDocument_spec h
  have hstr := componentKeys_str (hc ▸ hkeys)
  obtain ⟨hptidy, hpsame, ⟨new, hnew, hfrom⟩, hall⟩ := components_entries hp (tidy_start h)
  obtain ⟨hqtidy, -, new', hnew', hfrom'⟩ := operations_entries hq hptidy
  rw [List.nil_append] at hnew
  have hcomponent : ∀ e ∈ p.entries, ∃ key, d.FromComponent key e := by
    intro e he
    obtain ⟨-, before, key, node, after, hsplit, hk, hbefore⟩ := hfrom e (hnew ▸ he)
    exact ⟨_, fromComponent_of_first hc hstr hsplit hk hbefore⟩
  refine ⟨hqtidy.nodup, fun e he => ?_, fun key hk => ?_⟩
  · rw [hnew', List.mem_append] at he
    refine he.imp (hcomponent e) fun he => ?_
    obtain ⟨-, op, hop, es, hes, hmem⟩ := hfrom' e he
    rw [hpsame.setting] at hes
    rw [operations, hpsame.paths] at hop
    exact ⟨op, hop, es, hes, hmem⟩
  · obtain ⟨node, hnode⟩ := Option.isSome_iff_exists.mp hk
    have hmem : (.str key, node) ∈ components := by
      rw [component?, hc] at hnode
      exact Mapping.mem_of_get? hnode
    -- the entry of the name is that of the key, since the name is no other key's
    obtain ⟨e, he, hname⟩ := hall _ hmem
    obtain ⟨e', he', hsame⟩ := List.mem_map.mp hname
    obtain ⟨key', hkey'⟩ := hcomponent e' he'
    obtain rfl : key' = key := by
      refine hn.eq_of_nameOf hkey'.isSome hk ?_
      rw [← hkey'.name, hsame]
      exact componentEntry_name he
    exact ⟨e', by rw [hnew']; exact List.mem_append_left _ he', hkey'⟩

theorem Sources.traced {entries : List Entry} (hs : Sources d entries) {e : Entry}
    (he : e ∈ entries) : ∃ x, Traced d e x := by
  rcases hs.origin e he with ⟨key, hkey⟩ | ⟨op, hop, es, hes, hmem⟩
  · exact hkey.traced
  · exact traced_of_operation hop hes hmem

theorem Sources.isTypeName {entries : List Entry} (hs : Sources d entries) (hn : Named d) {e : Entry}
    (he : e ∈ entries) : Name.isTypeName e.name := by
  rcases hs.origin e he with ⟨key, hkey⟩ | ⟨op, hop, es, hes, hmem⟩
  · rw [hkey.name]
    exact hn.isTypeName key _ (hn.lookup_nameOf hkey.isSome)
  · exact (Operation.entry_name (Operation.method_mem hop) hes hmem).1

/-! ## The result -/

/-- A result is closed and well named. -/
structure Closed (d : Description) (r : Result) : Prop where
  nodup : (r.entries.map (·.name)).Nodup
  isTypeName : ∀ e ∈ r.entries, Name.isTypeName e.name
  /-- Every component has one entry, and there are no other entries of components. -/
  component : ∀ key, (d.component? key).isSome → ∃! e, e ∈ r.entries ∧ d.FromComponent key e
  ofComponent : ∀ e ∈ r.entries, e.category = some "component" → ∃ key, d.FromComponent key e
  /-- The name of a component is no other entry's, be it of a component or of an operation. -/
  owner : ∀ key, (d.component? key).isSome → ∀ e ∈ r.entries, e.name = d.setting.nameOf key →
    d.FromComponent key e
  key_eq : ∀ key key', (d.component? key).isSome → (d.component? key').isSome →
    d.setting.nameOf key = d.setting.nameOf key' → key = key'
  /-- Each reference names the entry of the component that it was written for. -/
  refs : ∀ e ∈ r.entries, ∃ x, Origin d e x ∧ e.schema = x.mapRefs d.setting.nameOf ∧
    ∀ key ∈ x.refs, ∃ target ∈ r.entries,
      target.name = d.setting.nameOf key ∧ d.FromComponent key target
  dependencies : ∀ e ∈ r.entries, ∀ name,
    name ∈ e.dependencies ↔ name ∈ e.schema.refs ∧ name ≠ e.name

/-- **A result is closed, and its names are unambiguous type names.** Where components go by their
keys, a reference stands for the key that it is written for. The search for a free number ends: it
finds the first. -/
theorem compile_closed (h : ofDocument document c = .ok d) (hr : d.compile.2 = .ok r) :
    Closed d r ∧
    (∀ node ref key, Lowering.target d.setting.keyed node ref = .ok (.component key) ↔
      Lowering.componentKey? ref = some key ∧ (d.component? key).isSome) ∧
    ∀ (taken : List String) (name : String), ∃ k ≤ taken.length,
      freeName taken name taken.length 2 = name ++ toString (2 + k) ∧
      freeName taken name taken.length 2 ∉ taken ∧
      ∀ i < k, name ++ toString (2 + i) ∈ taken := by
  obtain ⟨components, p, q, hc, hp, hq, -, rfl⟩ := compile_ok hr
  have hn := ofDocument_named h hc
  refine ⟨?_, fun node ref key => ?_, fun taken name => ?_⟩
  rotate_left
  · rw [Lowering.target_keyed, hn.component]
  · obtain ⟨k, hk, hname, hfirst⟩ := freeName_first name taken taken.length 2
    exact ⟨k, hk, hname, freeName_not_mem taken name 2, hfirst⟩
  have hs := run_sources h hc hp hq
  have hmem : ∀ {e}, e ∈ Entry.sort q.entries ↔ e ∈ q.entries := (Entry.sort_perm hs.nodup).mem_iff
  refine ⟨Entry.nodup_sort _, fun e he => hs.isTypeName hn (hmem.mp he), fun key hk => ?_,
    fun e he hcat => ?_, fun key hk e he hname => ?_, fun key key' hk hk' => hn.eq_of_nameOf hk hk',
    fun e he => ?_, fun e he name => ?_⟩
  · obtain ⟨e, he, hkey⟩ := hs.component key hk
    exact ⟨e, ⟨hmem.mpr he, hkey⟩, fun e' he' => he'.2.eq hkey⟩
  · rcases hs.origin e (hmem.mp he) with hkey | ⟨op, hop, es, hes, he⟩
    · exact hkey
    · exact absurd hcat (Operation.entry_name (Operation.method_mem hop) hes he).2
  · obtain ⟨e', he', hkey⟩ := hs.component key hk
    obtain rfl : e = e' :=
      List.inj_on_of_nodup_map hs.nodup (hmem.mp he) he' (hname.trans hkey.name.symm)
    exact hkey
  · obtain ⟨x, horigin, hschema, hkeys, -⟩ := hs.traced (hmem.mp he)
    refine ⟨x, horigin, hschema, fun key hkey => ?_⟩
    obtain ⟨target, ht, hkt⟩ := hs.component key ((hn.component key).mp (hkeys key hkey))
    exact ⟨target, hmem.mpr ht, hkt.name, hkt⟩
  · obtain ⟨x, hx⟩ := hs.traced (hmem.mp he)
    exact hx.isOf.mem_dependencies

/-! ## Two components of one name -/

/-- The nodes of two users whose names are one, the first of which refers to the second. -/
def userNodes : Mapping := [
  (.str "user", .map [(.str "type", .str "object"), (.str "properties", .map [
    (.str "name", .map [(.str "$ref", .str "#/components/schemas/User")])])]),
  (.str "User", .map [(.str "type", .str "string")])]

/-- An operation that is sent the first user. -/
def userPaths : Mapping := [
  (.str "/users", .map [(.str "post", .map [(.str "operationId", .str "user"),
    (.str "requestBody", .map [(.str "content", .map [(.str "application/json", .map [
      (.str "schema", .map [(.str "$ref", .str "#/components/schemas/user")])])])])])])]

/-- The document of the users. -/
def userDocument : Value :=
  .map [(.str "openapi", .str "3.1.0"), (.str "paths", .map userPaths),
    (.str "components", .map [(.str "schemas", .map userNodes)])]

/-- The description in the document of the users. -/
def userDescription : Description where
  setting :=
    { document := userDocument, scalars := [],
      componentNames := [("user", "User"), ("User", "User2")] }
  paths := userPaths
  components := .map userNodes
  notes := [.componentRenamed "user" "User" "User" "User2"]

/-- The result for the users has an entry for each of both, and it is closed. -/
theorem compile_users : ofDocument userDocument {} = .ok userDescription ∧
    ∃ r, userDescription.compile.2 = .ok r ∧
      (r.entries.map (·.name)).Perm ["User", "User2", "UserRequest"] ∧
      Closed userDescription r := by
  have h : ofDocument userDocument {} = .ok userDescription := rfl
  obtain ⟨p, q, hp, hq, hnames⟩ : ∃ p q,
      compileComponents { description := userDescription } userNodes = (p, .ok ()) ∧
      compileOperations p p.description.operations = (q, .ok ()) ∧
      q.entries.map (·.name) = ["User", "User2", "UserRequest"] :=
    ⟨_, _, rfl, rfl, rfl⟩
  have hr := congrArg Prod.snd (compile_eq rfl hp hq)
  refine ⟨h, _, hr, ?_, (compile_closed h hr).1⟩
  rw [← hnames]
  exact (Entry.sort_perm (run_sources h rfl hp hq).nodup).map _

end SchemaForge.OpenApi.Description
