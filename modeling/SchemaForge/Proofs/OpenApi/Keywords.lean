import SchemaForge.Proofs.Lists
import SchemaForge.Proofs.Logged
import SchemaForge.Proofs.OpenApi.Parts
import SchemaForge.Proofs.OpenApi.Validity
import SchemaForge.Proofs.Schema.Properties

/-!
# Keywords lose no valid datum

One lemma for each function that lowers a keyword: it ends with a schema, and the schema accepts
what the keyword allows, provided that the parts of the node are lowered so.

* `Serves`: a node is lowered to a schema that accepts at least certain data.
* `object_serves`, `typed_serves`, `shape_serves`: objects, nodes of one type, and nodes without
  their own nullability.
-/

namespace SchemaForge.OpenApi.Lowering

variable {m : Meaning} {V : Value → Datum → Prop} {sub : Value → Lower Modified} {e : Mapping}

/-- A node is lowered to a schema that accepts the data of `P`. -/
def Serves (m : Meaning) (sub : Value → Lower Modified) (P : Datum → Prop) (n : Value) : Prop :=
  ∃ x, (sub n).outcome = .ok x ∧ ∀ d, P d → Accepts m x.toSchema d

theorem Serves.schema {P : Datum → Prop} {n : Value} (h : Serves m sub P n) :
    ∃ s, (toSchema sub n).outcome = .ok s ∧ ∀ d, P d → Accepts m s d := by
  obtain ⟨x, hx, hp⟩ := h
  exact ⟨x.toSchema, by rw [Logged.outcome_bind hx, Logged.outcome_pure], hp⟩

theorem serves_list {ns : List Value} (h : ∀ n ∈ ns, Serves m sub (V n) n) :
    ∃ ss, (ns.mapM (toSchema sub)).outcome = .ok ss ∧
      List.Forall₂ (fun n s => ∀ d, V n d → Accepts m s d) ns ss :=
  Logged.outcome_mapM_of_forall fun n hn => (h n hn).schema

/-! ## Values -/

theorem const_accepts {v : Value} {d : Datum} (h : Denotes v d) : Accepts m (const v) d := by
  rw [const]
  split
  · rename_i hn
    rw [Value.isNull_iff.mp hn] at h
    exact accepts_null.mpr (denotes_null.mp h)
  · exact accepts_iff.mpr h

/-- The schema of an `enum` keyword; null is accepted by it or reported beside it. -/
theorem enum_accepts (vs : List Value) : ∃ r, enum (.list vs) = .ok r ∧
    ∀ d, (∃ v ∈ vs, Denotes v d) → Accepts m r.1 d ∨ (r.2 = true ∧ d = .null) := by
  have listed : ∀ d, (∃ v ∈ vs, Denotes v d) →
      (∃ v ∈ vs.filter (!·.isNull), Denotes v d) ∨ (vs.any Value.isNull = true ∧ d = .null) := by
    rintro d ⟨v, hv, hd⟩
    by_cases hn : v.isNull = true
    · refine .inr ⟨List.any_eq_true.mpr ⟨v, hv, hn⟩, ?_⟩
      rw [Value.isNull_iff.mp hn] at hd
      exact denotes_null.mp hd
    · exact .inl ⟨v, List.mem_filter.mpr ⟨hv, by simpa using hn⟩, hd⟩
  simp only [enum, enumValues, bind, Except.bind, pure, Except.pure]
  split
  · rename_i he
    refine ⟨_, rfl, fun d hd => .inl ?_⟩
    rcases listed d hd with ⟨v, hv, -⟩ | ⟨hn, rfl⟩
    · rw [List.isEmpty_iff.mp he] at hv
      cases hv
    · rw [hn]
      exact accepts_null.mpr rfl
  · split
    · exact ⟨_, rfl, fun d hd => (listed d hd).imp_left fun h => accepts_iff.mpr h⟩
    · refine ⟨_, rfl, fun d hd => (listed d hd).imp_left ?_⟩
      rintro ⟨v, hv, hd⟩
      exact accepts_union.mpr ⟨_, List.mem_map_of_mem hv, accepts_iff.mpr hd⟩

/-! ## Several schemas -/

theorem oneOf_accepts {ss : List Schema} {d : Datum} (h : ∃ s ∈ ss, Accepts m s d) :
    Accepts m (oneOf ss) d := by
  unfold oneOf
  split
  · simpa using h
  · exact accepts_union.mpr h

theorem allOf_accepts {ss : List Schema} {d : Datum} (h : ∀ s ∈ ss, Accepts m s d) :
    Accepts m (allOf ss) d := by
  unfold allOf
  split
  · simpa using h
  · exact accepts_iff.mpr h

/-! ## Objects -/

theorem hasType_object {d : Datum} (h : HasType "object" d) : ∃ members, d = .object members := by
  cases d with
  | object members => exact ⟨members, rfl⟩
  | _ => exact absurd h (by simp [HasType])

theorem isRequired_str {ks : List String} {k : String} :
    isRequired (ks.map .str) (.str k) = true ↔ k ∈ ks := by
  simp [isRequired, sameKey_str]

theorem mapM_asKey (ks : List String) : (ks.map Value.str).mapM asKey = .ok (ks.map .str) := by
  rw [List.mapM_map]
  exact List.mapM_pure

theorem requiredKeys_spec (hw : WellShaped e) : ∃ ks : List String,
    requiredKeys (e.getD "required") = .ok (ks.map .str) ∧
      ∀ k ∈ ks, ∃ keys, e.get? "required" = some (.list keys) ∧ .str k ∈ keys := by
  rcases h : e.get? "required" with _ | v
  · exact ⟨[], by rw [Mapping.getD_eq_null h]; rfl, by simp⟩
  · obtain ⟨ks, rfl⟩ := hw.required v h
    refine ⟨ks, ?_, fun k hk => ⟨_, rfl, List.mem_map_of_mem hk⟩⟩
    rw [Mapping.getD_eq h, requiredKeys]
    split
    · rename_i he
      have : ks = [] := by simpa [Value.isGiven] using he
      rw [this]
      rfl
    · exact mapM_asKey ks

theorem propertyNodes_spec (hw : WellShaped e) : ∃ ps : Mapping,
    propertyNodes (e.getD "properties") = .ok ps ∧
      (e.getD "properties").isGiven = !ps.isEmpty ∧
      (∀ entry ∈ ps, ∃ k, entry.1 = .str k ∧ ps.get? k = some entry.2 ∧
        e.get? "properties" = some (.map ps)) ∧
      ∀ ps', e.get? "properties" = some (.map ps') → ps' = ps := by
  rcases h : e.get? "properties" with _ | v
  · exact ⟨[], by rw [Mapping.getD_eq_null h]; rfl, by rw [Mapping.getD_eq_null h]; rfl, by simp,
      by simp⟩
  · obtain ⟨ps, rfl, hd, hk⟩ := hw.properties v h
    rw [Mapping.getD_eq h]
    refine ⟨ps, rfl, rfl, fun entry he => ?_, by simp⟩
    obtain ⟨k, hk⟩ := hk entry he
    refine ⟨k, hk, Mapping.get?_of_mem hd ?_, rfl⟩
    rw [← hk]
    exact he

/-- A property accepts what its node does, and it may be missing unless it is required. -/
theorem property_admits {required : Bool} {x : Modified} {description : Value} {P : Datum → Prop}
    {o : Option Datum} (hx : ∀ d, P d → Accepts m x.toSchema d) (hr : required = true → o.isSome)
    (ho : ∀ d, o = some d → P d) :
    (property required x description).Admits (Accepts m) o := by
  cases o with
  | none =>
    cases required with
    | true => exact absurd (hr rfl) (by simp)
    | false => exact toProperty_admits_none.mpr rfl
  | some d =>
    have hd := hx d (ho d rfl)
    cases required with
    | true => exact toProperty_admits.mpr hd
    | false =>
      refine toProperty_admits.mpr (accepts_toSchema.mpr ?_)
      exact (accepts_toSchema.mp hd).imp_right fun h => ⟨rfl, h.2⟩

/-- The properties of an object: each is the property of some node, and every node has one. -/
theorem properties_serves (required : List Atom) :
    ∀ (nodes : Mapping) (acc : List (Atom × Property Schema)),
    (∀ node ∈ nodes, (∃ k, node.1 = .str k) ∧ Serves m sub (V node.2) node.2) →
      ∃ ps, (properties sub required acc nodes).outcome = .ok ps ∧
        (∀ entry ∈ ps, entry ∈ acc ∨ ∃ node ∈ nodes, entry.1 = node.1 ∧ ∃ x : Modified,
          (∀ d, V node.2 d → Accepts m x.toSchema d) ∧
            entry.2 = property (isRequired required node.1) x (descriptionOf node.2)) ∧
        ∀ a, a ∈ acc.map (·.1) ∨ a ∈ nodes.map (·.1) → a ∈ ps.map (·.1)
  | [], acc, _ => ⟨acc, rfl, fun entry he => .inl he, by simp⟩
  | (key, node) :: nodes, acc, h => by
    obtain ⟨⟨k, hk⟩, x, hx, hd⟩ := h _ List.mem_cons_self
    obtain rfl : key = .str k := hk
    obtain ⟨ps, hps, hmem, hkeys⟩ := properties_serves required nodes
      (setProperty acc (.str k) (property (isRequired required (.str k)) x (descriptionOf node)))
      fun n hn => h n (List.mem_cons_of_mem _ hn)
    refine ⟨ps, by rw [properties, Logged.outcome_bind hx, hps], fun entry he => ?_, fun a ha => ?_⟩
    · rcases hmem entry he with he | ⟨n, hn, hrest⟩
      · rcases mem_setProperty he with he | rfl
        · exact .inl he
        · exact .inr ⟨_, List.mem_cons_self, rfl, x, hd, rfl⟩
      · exact .inr ⟨n, List.mem_cons_of_mem _ hn, hrest⟩
    · refine hkeys a ?_
      rw [mem_keys_setProperty]
      rw [List.map_cons, List.mem_cons] at ha
      tauto

theorem extra_serves {additional : Value}
    (h : additional = .null ∨ ((∃ b, additional = .bool b) ∨ ∃ e, additional = .map e) ∧
      Serves m sub (V additional) additional)
    (hfalse : ∀ d, ¬ V (.bool false) d) :
    ∃ x, (extra (toSchema sub) additional).outcome = .ok x ∧
      ∀ d, (additional ≠ .null → V additional d) → x.Admits (Accepts m) d := by
  rcases h with rfl | ⟨⟨b, rfl⟩ | ⟨entries, rfl⟩, hs⟩
  · exact ⟨.unset, rfl, fun d _ => trivial⟩
  · cases b with
    | true => exact ⟨.allowed, rfl, fun d _ => trivial⟩
    | false => exact ⟨.rejected, rfl, fun d hd => hfalse d (hd (by simp))⟩
  · by_cases he : entries.isEmpty = true
    · exact ⟨.allowed, by rw [extra, if_pos he]; rfl, fun d _ => trivial⟩
    · obtain ⟨s, hs, hd⟩ := hs.schema
      refine ⟨.typed s, ?_, fun d hv => hd d (hv (by simp))⟩
      rw [extra, if_neg he, Logged.outcome_bind hs, Logged.outcome_pure]

/-- What stands under `additionalProperties`: nothing, or a node that is lowered. -/
theorem additional_spec {known : String → Prop}
    (hp : ∀ n, IsPart e n → Plain known n ∧ Serves m sub (V n) n) :
    e.getD "additionalProperties" = .null ∨
      ((∃ b, e.getD "additionalProperties" = .bool b) ∨
        ∃ a, e.getD "additionalProperties" = .map a) ∧
      Serves m sub (V (e.getD "additionalProperties")) (e.getD "additionalProperties") := by
  rcases h : e.get? "additionalProperties" with _ | n
  · exact .inl (Mapping.getD_eq_null h)
  · rw [Mapping.getD_eq h]
    obtain ⟨hn, hs⟩ := hp n (.inr (.inr ⟨_, by decide, h⟩))
    refine .inr ⟨?_, hs⟩
    cases hn with
    | bool b => exact .inl ⟨b, rfl⟩
    | ref | keywords => exact .inr ⟨_, rfl⟩

/-- The members beside the properties are valid for the node of further keys. -/
theorem additional_valid {ps : Mapping} {members : List (String × Datum)}
    (honly : ∀ ps', e.get? "properties" = some (.map ps') → ps' = ps)
    (hm : Meets V e (.object members)) {member : String × Datum} (hmem : member ∈ members)
    (hnone : ps.get? member.1 = none) (hne : e.getD "additionalProperties" ≠ .null) :
    V (e.getD "additionalProperties") member.2 := by
  rcases h : e.get? "additionalProperties" with _ | n
  · exact absurd (Mapping.getD_eq_null h) hne
  · rw [Mapping.getD_eq h]
    refine hm.additional n members h rfl member hmem fun ps' hps' => ?_
    rwa [honly ps' hps']

/-- **An object node loses no object.** -/
theorem object_serves {known : String → Prop} (hw : WellShaped e)
    (hp : ∀ n, IsPart e n → Plain known n ∧ Serves m sub (V n) n)
    (hfalse : ∀ d, ¬ V (.bool false) d) :
    ∃ s, (object sub (toSchema sub) e).outcome = .ok s ∧
      ∀ d, Meets V e d → HasType "object" d → Accepts m s d := by
  obtain ⟨ks, hks, hkeys⟩ := requiredKeys_spec hw
  obtain ⟨ps, hps, hgiven, hget, honly⟩ := propertyNodes_spec hw
  have hadd := additional_spec hp
  simp only [object]
  rw [Logged.outcome_lift_bind (show orStop _ = .ok _ by rw [hks]; rfl)]
  split_ifs with htyped hopen
  · -- no properties, and a node for all values
    rw [hgiven, Bool.and_eq_true, Bool.not_not, List.isEmpty_iff] at htyped
    obtain ⟨hempty, htyped⟩ := htyped
    have hne : e.getD "additionalProperties" ≠ .null := by
      intro h
      rw [h] at htyped
      cases htyped
    obtain ⟨s, hs, hd⟩ := (hadd.resolve_left hne).2.schema
    refine ⟨.dictionary s, by rw [Logged.outcome_bind hs, Logged.outcome_pure], fun d hm ho => ?_⟩
    obtain ⟨members, rfl⟩ := hasType_object ho
    refine accepts_iff.mpr ⟨members, rfl, fun member hmem => ⟨accepts_text _, hd _ ?_⟩⟩
    exact additional_valid honly hm hmem (by rw [hempty]; rfl) hne
  · -- no properties, and nothing said of the values
    refine ⟨.dictionary .unknown, rfl, fun d hm ho => ?_⟩
    obtain ⟨members, rfl⟩ := hasType_object ho
    exact accepts_iff.mpr
      ⟨members, rfl, fun member hmem => ⟨accepts_text _, accepts_unknown _⟩⟩
  · obtain ⟨x, hx, hxd⟩ := extra_serves hadd hfalse
    obtain ⟨lowered, hl, hfrom, hall⟩ := properties_serves (m := m) (V := V)
      (ks.map .str) ps [] fun node hn => by
        obtain ⟨k, hk, hgetk, hprops⟩ := hget node hn
        exact ⟨⟨k, hk⟩, (hp node.2 (.inr (.inl ⟨ps, k, hprops, hgetk⟩))).2⟩
    refine ⟨.object lowered x .null, ?_, fun d hm ho => ?_⟩
    · rw [Logged.outcome_lift_bind (show orStop _ = .ok ps by rw [hps]; rfl),
        Logged.outcome_bind hl, Logged.outcome_bind hx, Logged.outcome_pure]
    obtain ⟨members, rfl⟩ := hasType_object ho
    refine accepts_iff.mpr ⟨members, rfl, fun entry he => ?_, fun member hmem hother => ?_⟩
    · obtain ⟨node, hn, hkey, y, hy, hentry⟩ := (hfrom entry he).resolve_left (by simp)
      obtain ⟨k, hk, hgetk, hprops⟩ := hget node hn
      rw [hentry, hkey, hk]
      refine property_admits hy (fun hr => ?_) fun d hd =>
        hm.properties ps members hprops rfl k node.2 d hgetk hd
      obtain ⟨keys, hreq, hkmem⟩ := hkeys k (isRequired_str.mp hr)
      exact hm.required keys members hreq rfl k hkmem
    · refine hxd _ fun hne => additional_valid honly hm hmem ?_ hne
      rw [← Option.not_isSome_iff_eq_none, Mapping.get?_isSome]
      intro hin
      obtain ⟨entry, he, hkey⟩ := List.mem_map.mp (hall _ (.inr hin))
      exact hother entry he (by rw [hkey]; rfl)

/-! ## Nodes of one type -/

/-- What a node with one type says of a datum; without a type, null stands for it. -/
def Fits (e : Mapping) (type : Value) (d : Datum) : Prop :=
  (∀ t, type = .str t → HasType t d) ∧
    (type = .null → e.has "properties" ∨ e.has "additionalProperties" → HasType "object" d)

theorem isText_iff {v : Value} {s : String} : isText v s = true ↔ v = .str s := by
  unfold isText
  split
  · simp
  · rename_i h
    exact ⟨fun hf => absurd hf (by decide), fun hv => (h s hv).elim⟩

theorem array_serves (hw : WellShaped e) (hp : ∀ n, IsPart e n → Serves m sub (V n) n) :
    ∃ s, (match listAt? e "prefixItems" with
        | some items => do
          return .tuple (← items.mapM (toSchema sub)) .null
        | none =>
          match e.getD "items" with
          | .atom .null => pure (.array .unknown .null)
          | items => do
            return .array (← toSchema sub items) .null : Lower Schema).outcome = .ok s ∧
      ∀ d, Meets V e d → HasType "array" d → Accepts m s d := by
  have htype : ∀ d, HasType "array" d → ∃ xs, d = .list xs := by
    intro d hd
    cases d with
    | list xs => exact ⟨xs, rfl⟩
    | _ => exact absurd hd (by simp [HasType])
  have hno : listAt? e "prefixItems" = none := by rw [listAt?, hw.get?_eq_none (by decide)]
  rw [hno]
  dsimp only
  split
  · refine ⟨_, rfl, fun d hm ht => ?_⟩
    obtain ⟨xs, rfl⟩ := htype d ht
    exact accepts_iff.mpr ⟨xs, rfl, fun x hx => accepts_unknown x⟩
  · rename_i hne
    rcases h : e.get? "items" with _ | n
    · exact absurd (Mapping.getD_eq_null h) hne
    · rw [Mapping.getD_eq h]
      obtain ⟨s, hs, hd⟩ := (hp n (.inr (.inr ⟨_, by decide, h⟩))).schema
      refine ⟨.array s .null, by rw [Logged.outcome_bind hs, Logged.outcome_pure], ?_⟩
      intro d hm ht
      obtain ⟨xs, rfl⟩ := htype d ht
      exact accepts_iff.mpr ⟨xs, rfl, fun x hx => hd x (hm.items n xs h rfl x hx)⟩

/-- **A node of one type loses no datum of that type.** -/
theorem typed_serves {known : String → Prop} (type : Value) (hw : WellShaped e)
    (hp : ∀ n, IsPart e n → Plain known n ∧ Serves m sub (V n) n)
    (hfalse : ∀ d, ¬ V (.bool false) d) :
    ∃ s, (typed sub (toSchema sub) e .null type).outcome = .ok s ∧
      ∀ d, Meets V e d → Fits e type d → Accepts m s d := by
  unfold typed
  dsimp only
  split_ifs with hobj
  · obtain ⟨s, hs, hd⟩ := object_serves hw hp hfalse
    refine ⟨s, hs, fun d hm hf => hd d hm ?_⟩
    rw [Bool.or_eq_true, isText_iff, Bool.and_eq_true, Value.isNull_iff, Bool.or_eq_true] at hobj
    exact hobj.elim (hf.1 _) fun h => hf.2 h.1 h.2
  · split
    · obtain ⟨s, hs, hd⟩ := array_serves hw fun n hn => (hp n hn).2
      exact ⟨s, hs, fun d hm hf => hd d hm (hf.1 _ rfl)⟩
    · refine ⟨_, rfl, fun d hm hf => ?_⟩
      have ht := hf.1 _ rfl
      cases d with
      | text s =>
        refine accepts_iff.mpr ⟨s, rfl, ?_, hm.length s rfl, .inl ?_⟩
        · simp [formatText?]
        · rw [Mapping.getD_eq_null (hw.get?_eq_none (by decide))]
          rfl
      | _ => exact absurd ht (by simp [HasType])
    · refine ⟨_, rfl, fun d hm hf => ?_⟩
      have ht := hf.1 _ rfl
      cases d with
      | number q => exact accepts_iff.mpr ⟨q, rfl, fun _ => ht, hm.bounds q rfl⟩
      | _ => exact absurd ht (by simp [HasType])
    · refine ⟨_, rfl, fun d hm hf => ?_⟩
      have ht := hf.1 _ rfl
      cases d with
      | number q => exact accepts_iff.mpr ⟨q, rfl, by simp, hm.bounds q rfl⟩
      | _ => exact absurd ht (by simp [HasType])
    · refine ⟨_, rfl, fun d hm hf => ?_⟩
      have ht := hf.1 _ rfl
      cases d with
      | bool b => exact accepts_iff.mpr ⟨b, rfl⟩
      | _ => exact absurd ht (by simp [HasType])
    · refine ⟨_, rfl, fun d hm hf => ?_⟩
      have ht := hf.1 _ rfl
      cases d with
      | null => exact accepts_iff.mpr rfl
      | _ => exact absurd ht (by simp [HasType])
    · exact ⟨_, rfl, fun d _ _ => accepts_unknown d⟩

/-! ## Shapes -/

theorem listAt?_eq_some {k : String} {ns : List Value} (h : listAt? e k = some ns) :
    e.get? k = some (.list ns) := by
  unfold listAt? at h
  split at h
  · rename_i items hk
    rw [hk, Option.some.inj h]
  · cases h

/-- **A node without its own nullability loses no datum but null, and null only where its `enum`
lists it.** -/
theorem shape_serves {known : String → Prop} {s : Setting} (type : Value) (hw : WellShaped e)
    (hp : ∀ n, IsPart e n → Plain known n ∧ Serves m sub (V n) n)
    (hbeside : (e.get? "allOf").isSome → Serves m sub (Meets V (beside e)) (.map (beside e)))
    (hfalse : ∀ d, ¬ V (.bool false) d) :
    ∃ r, (shape s sub e type).outcome = .ok r ∧
      ∀ d, Meets V e d → Fits e type d → Accepts m r.1 d ∨ (r.2 = true ∧ d = .null) := by
  have hlist : ∀ k ∈ ["oneOf", "anyOf", "allOf"], ∀ ns, listAt? e k = some ns →
      ∃ ss, (ns.mapM (toSchema sub)).outcome = .ok ss ∧
        List.Forall₂ (fun n s => ∀ d, V n d → Accepts m s d) ns ss := fun k hk ns hns =>
    serves_list fun n hn => (hp n (.inl ⟨k, hk, ns, listAt?_eq_some hns, hn⟩)).2
  have hformat : asKey (e.getD "format") = .ok .null := by
    rw [Mapping.getD_eq_null (hw.get?_eq_none (by decide))]
    rfl
  simp only [shape]
  rw [Logged.outcome_lift_bind (show orStop _ = .ok _ by rw [hformat]; rfl)]
  dsimp only [scalarCode?, formatText?, Option.bind_none]
  split
  · rename_i v hv
    exact ⟨_, rfl, fun d hm _ => .inl (const_accepts (hm.const v hv))⟩
  split
  · rename_i v hv
    obtain ⟨vs, rfl⟩ := hw.enum v hv
    obtain ⟨r, hr, hd⟩ := enum_accepts (m := m) vs
    exact ⟨r, by rw [hr]; rfl, fun d hm _ => hd d (hm.enum vs hv)⟩
  split
  · rename_i ns hns
    have honeOf : ∃ k ∈ ["oneOf", "anyOf", "allOf"], listAt? e k = some ns ∧
        ∀ d, Meets V e d → ∃ n ∈ ns, V n d := by
      rcases Option.or_eq_some_iff.mp hns with h | ⟨-, h⟩
      · exact ⟨_, by decide, h, fun d hm => hm.oneOf ns (listAt?_eq_some h)⟩
      · exact ⟨_, by decide, h, fun d hm => hm.anyOf ns (listAt?_eq_some h)⟩
    obtain ⟨k, hk, hkns, hd⟩ := honeOf
    obtain ⟨ss, hss, hrel⟩ := hlist k hk ns hkns
    refine ⟨_, by rw [Logged.outcome_bind hss, Logged.outcome_pure], fun d hm _ => .inl ?_⟩
    obtain ⟨n, hn, hv⟩ := hd d hm
    obtain ⟨s, hs, ha⟩ := exists_of_mem_left hrel hn
    exact oneOf_accepts ⟨s, hs, ha d hv⟩
  split
  · rename_i ns hns
    obtain ⟨ss, hss, hrel⟩ := hlist _ (by decide) ns hns
    have hall : ∀ d, Meets V e d → ∀ s ∈ ss, Accepts m s d := by
      intro d hm s hs
      obtain ⟨n, hn, ha⟩ := exists_of_mem_right hrel hs
      exact ha d (hm.allOf ns (listAt?_eq_some hns) n hn)
    rw [Logged.outcome_bind hss]
    split_ifs with hprops
    · obtain ⟨rest, hrest, hd⟩ := (hbeside (by rw [listAt?_eq_some hns]; rfl)).schema
      refine ⟨_, by rw [Logged.outcome_bind hrest, Logged.outcome_pure], fun d hm _ => .inl ?_⟩
      refine allOf_accepts fun s hs => ?_
      rcases List.mem_append.mp hs with hs | hs
      · exact hall d hm s hs
      · rw [List.mem_singleton.mp hs]
        exact hd d hm.beside
    · exact ⟨_, by rw [Logged.outcome_pure], fun d hm _ => .inl (allOf_accepts (hall d hm))⟩
  · obtain ⟨s, hs, hd⟩ := typed_serves type hw hp hfalse
    refine ⟨_, by rw [Logged.outcome_bind hs, Logged.outcome_pure], fun d hm hf => ?_⟩
    exact .inl (hd d hm hf)

end SchemaForge.OpenApi.Lowering
