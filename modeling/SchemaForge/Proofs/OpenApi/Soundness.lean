import SchemaForge.Proofs.OpenApi.Components
import SchemaForge.Proofs.OpenApi.Keywords

/-!
# Lowering rejects no valid datum

A datum that is valid for a node of an accepted document is accepted by the schema that the node is
lowered to. The proof follows the derivation that the datum is valid, and within a node the depth
of lowering, since a node with several types and a node with an `allOf` are lowered by way of nodes
that do not stand in the document.

* `mapping_serves`: a node that is a mapping, its types and its nullability put together.
* `lowerWithin_serves`: one node, given that its parts and the components lose nothing.
* **`schema_accepts_valid`**: nodes of a document lose no valid datum.
-/

namespace SchemaForge.OpenApi

namespace Lowering

variable {m : Meaning} {V : Value → Datum → Prop} {sub : Value → Lower Modified} {e : Mapping}
  {known : String → Prop} {s : Setting} {site : Site}

/-! ## Types -/

theorem hasType_null {d : Datum} (h : HasType "null" d) : d = .null := by
  cases d with
  | null => rfl
  | _ => exact absurd h (by simp [HasType])

/-- A datum of one of the types is null where null is among them, or of one of the others. -/
theorem hasType_typesOf {ts : List Value} {d : Datum} (h : ∃ t, .str t ∈ ts ∧ HasType t d) :
    ((typesOf (.list ts)).1 = true ∧ d = .null) ∨
      ∃ t, .str t ∈ (typesOf (.list ts)).2 ∧ HasType t d := by
  obtain ⟨t, ht, hd⟩ := h
  by_cases hn : t = "null"
  · rw [hn] at ht hd
    exact .inl ⟨List.any_eq_true.mpr ⟨_, ht, isText_iff.mpr rfl⟩, hasType_null hd⟩
  · refine .inr ⟨t, List.mem_filter.mpr ⟨ht, ?_⟩, hd⟩
    rw [Bool.not_eq_true', Bool.eq_false_iff, Ne, isText_iff]
    exact fun h => hn (by simpa using h)

theorem typesOf_many (hw : WellShaped e) (h : 2 ≤ (typesOf (e.getD "type")).2.length) :
    ∃ types, e.get? "type" = some (.list types) ∧ 2 ≤ types.length ∧
      ∀ t ∈ (typesOf (e.getD "type")).2, ∃ name, t = .str name := by
  rcases ht : e.get? "type" with _ | v
  · rw [Mapping.getD_eq_null ht] at h
    exact absurd h (by decide)
  · rw [Mapping.getD_eq ht] at h ⊢
    rcases hw.type v ht with ⟨t, rfl⟩ | ⟨ts, rfl⟩
    · exact absurd h (by simp [typesOf])
    · refine ⟨_, rfl, Nat.le_trans h (List.length_filter_le _ _), fun t ht => ?_⟩
      obtain ⟨name, -, rfl⟩ := List.mem_map.mp (List.mem_of_mem_filter ht)
      exact ⟨name, rfl⟩

/-- The type of a node with at most one type beside null. -/
abbrev soleType (e : Mapping) : Value :=
  (typesOf (e.getD "type")).2.head?.getD
    (if (typesOf (e.getD "type")).1 then .str "null" else .null)

theorem fits_soleType {d : Datum} (hw : WellShaped e)
    (h : (typesOf (e.getD "type")).2.length < 2) (ha : TypeAllows e d) :
    ((typesOf (e.getD "type")).1 = true ∧ d = .null) ∨ Fits e (soleType e) d := by
  unfold soleType
  rw [TypeAllows] at ha
  rcases ht : e.get? "type" with _ | v
  · rw [ht] at ha
    rw [Mapping.getD_eq_null ht]
    exact .inr ⟨fun t h => (by cases h), fun _ => ha⟩
  · rw [ht] at ha
    rw [Mapping.getD_eq ht] at h ⊢
    rcases hw.type v ht with ⟨t, rfl⟩ | ⟨ts, rfl⟩
    · refine .inr ⟨fun t' h => ?_, fun h => (by cases h)⟩
      cases h
      exact ha
    · rcases hasType_typesOf ha with hnull | ⟨t, htm, hd⟩
      · exact .inl hnull
      right
      rcases hts : (typesOf (.list (ts.map Value.str))).2 with _ | ⟨first, rest⟩
      · rw [hts] at htm
        cases htm
      · rw [hts] at h htm
        obtain rfl : rest = [] := by
          rw [List.length_cons] at h
          exact List.eq_nil_of_length_eq_zero (by omega)
        obtain rfl := List.mem_singleton.mp htm
        refine ⟨fun t' h => ?_, fun h => (by cases h)⟩
        cases h
        exact hd

/-! ## Mappings and references -/

theorem isTrue_getD (h : e.get? "nullable" = some (.bool true)) :
    isTrue (e.getD "nullable") = true := by
  rw [Mapping.getD_eq h]
  rfl

theorem accepts_described {v : Value} {x : Schema} {d : Datum} (h : Accepts m x d) :
    Accepts m (if v.isGiven then x.describe v else x) d := by
  split
  · exact (accepts_describe v).mpr h
  · exact h

/-- The data that are valid for a mapping without a reference. -/
abbrev NullOr (V : Value → Datum → Prop) (e : Mapping) (d : Datum) : Prop :=
  (e.get? "nullable" = some (.bool true) ∧ d = .null) ∨ Meets V e d

theorem sole_serves {type : Value} {nullAmong : Bool} (hw : WellShaped e)
    (hp : ∀ n, IsPart e n → Plain known n ∧ Serves m sub (V n) n)
    (hbeside : (e.get? "allOf").isSome → Serves m sub (Meets V (beside e)) (.map (beside e)))
    (hfalse : ∀ d, ¬ V (.bool false) d)
    (hfits : ∀ d, TypeAllows e d → (nullAmong = true ∧ d = .null) ∨ Fits e type d) :
    ∃ x, (do
        let (lowered, listsNull) ← shape s sub e type
        let description := e.getD "description"
        let described := if description.isGiven then lowered.describe description else lowered
        return {
          schema := described
          nullable := isTrue (e.getD "nullable") || nullAmong || listsNull } :
        Lower Modified).outcome = .ok x ∧ ∀ d, NullOr V e d → Accepts m x.toSchema d := by
  obtain ⟨⟨lowered, listsNull⟩, hr, hd⟩ := shape_serves (s := s) type hw hp hbeside hfalse
  refine ⟨_, by rw [Logged.outcome_bind hr, Logged.outcome_pure], fun d hv => ?_⟩
  rw [accepts_toSchema]
  rcases hv with ⟨hn, rfl⟩ | hm
  · exact .inr ⟨by simp [Modified.allowsNull, isTrue_getD hn], rfl⟩
  rcases hfits d hm.type with ⟨hn, rfl⟩ | hf
  · exact .inr ⟨by simp [Modified.allowsNull, hn], rfl⟩
  rcases hd d hm hf with ha | ⟨hn, rfl⟩
  · exact .inl (accepts_described ha)
  · refine .inr ⟨?_, rfl⟩
    obtain rfl : listsNull = true := hn
    simp [Modified.allowsNull]

/-- **A node that is a mapping loses no valid datum.** -/
theorem mapping_serves (hw : WellShaped e)
    (hp : ∀ n, IsPart e n → Plain known n ∧ Serves m sub (V n) n)
    (hbeside : (e.get? "allOf").isSome → Serves m sub (Meets V (beside e)) (.map (beside e)))
    (hwith : ∀ t types, e.get? "type" = some (.list types) → 2 ≤ types.length →
      Serves m sub (Meets V (withType e (.str t))) (.map (withType e (.str t))))
    (hfalse : ∀ d, ¬ V (.bool false) d) :
    ∃ x, (mapping s sub e).outcome = .ok x ∧ ∀ d, NullOr V e d → Accepts m x.toSchema d := by
  have hmany := typesOf_many hw
  have hsole : ∀ d, (typesOf (e.getD "type")).2.length < 2 → TypeAllows e d → _ :=
    fun d => fits_soleType (d := d) hw
  unfold soleType at hsole
  rw [mapping]
  rcases hto : typesOf (e.getD "type") with ⟨nullAmong, _ | ⟨first, _ | ⟨second, rest⟩⟩⟩
  · rw [hto] at hsole
    exact sole_serves hw hp hbeside hfalse fun d => hsole d (by simp)
  · rw [hto] at hsole
    exact sole_serves hw hp hbeside hfalse fun d => hsole d (by simp)
  · rw [hto] at hmany
    obtain ⟨types, htypes, hlen, hnames⟩ := hmany (by simp)
    obtain ⟨ss, hss, hrel⟩ := Logged.outcome_mapM_of_forall (l := first :: second :: rest)
      (f := fun type => toSchema sub (.map (withType e type)))
      (R := fun t s => ∀ d, Meets V (withType e t) d → Accepts m s d) fun t ht => by
        obtain ⟨name, rfl⟩ := hnames t ht
        exact (hwith name types htypes hlen).schema
    refine ⟨{ schema := .union ss .null, nullable := isTrue (e.getD "nullable") || nullAmong },
      ?_, fun d hv => ?_⟩
    · dsimp only
      rw [Logged.outcome_bind hss, Logged.outcome_pure]
    rw [accepts_toSchema]
    rcases hv with ⟨hn, rfl⟩ | hm
    · exact .inr ⟨by simp [Modified.allowsNull, isTrue_getD hn], rfl⟩
    have ht := hm.type
    rw [TypeAllows, htypes] at ht
    rw [Mapping.getD_eq htypes] at hto
    rcases hasType_typesOf ht with ⟨hn, rfl⟩ | ⟨t, htm, hd⟩
    · rw [hto] at hn
      exact .inr ⟨by simp [Modified.allowsNull, show nullAmong = true from hn], rfl⟩
    · rw [hto] at htm
      obtain ⟨x, hx, ha⟩ := exists_of_mem_left hrel htm
      exact .inl (accepts_union.mpr ⟨x, hx, ha d (hm.withType hd)⟩)

theorem reference_outcome {ref : Value} {key name : String} (href : RefersTo ref key)
    (hname : s.componentNames.lookup key = some name) :
    (reference s site sub e ref).outcome =
      .ok { schema := .ref name .null, nullable := isTrue (e.getD "nullable") } := by
  rw [reference, target, href.componentKey]
  dsimp only
  rw [hname]
  rfl

/-! ## Nodes -/

theorem node_bool (b : Bool) : (node s site sub (.bool b)).outcome =
    .ok { schema := if b then .unknown else .never } := by
  cases b <;> rfl

theorem isEmpty_of_get? {k : String} {v : Value} (h : e.get? k = some v) : e.isEmpty = false := by
  cases e with
  | nil => cases h
  | cons => rfl

theorem node_ref {ref : Value} {key : String} (h : e.get? "$ref" = some ref)
    (href : RefersTo ref key) : node s site sub (.map e) = reference s site sub e ref := by
  obtain ⟨token, rfl, -, -⟩ := href
  rw [node, isEmpty_of_get? h, Mapping.getD_eq h]
  rfl

theorem node_mapping (h : e.get? "$ref" = none) (he : e ≠ []) :
    node s site sub (.map e) = mapping s sub e := by
  rw [node, if_neg (by rwa [List.isEmpty_iff]), Mapping.getD_eq_null h]

/-- **A node loses no datum that a step finds valid**, when what the step builds on is lost neither
by the nodes nor by the names of components. -/
theorem lowerWithin_serves (component? : String → Option Value) (V : Value → Datum → Prop)
    (hV : ∀ n d, V n d → Plain known n → ∀ site fuel x, n.size ≤ fuel →
      (lowerWithin s site fuel n).outcome = .ok x → Accepts m x.toSchema d)
    (hnames : ∀ key, known key → ∃ name, s.componentNames.lookup key = some name ∧
      ∀ n d, component? key = some n → V n d → Accepts m (.ref name .null) d) (site : Site) :
    ∀ fuel n, Plain known n → n.size ≤ fuel →
      Serves m (lowerWithin s site fuel) (Step component? V n) n
  | 0, n, _, hsize => absurd n.size_pos (by omega)
  | fuel + 1, _, .bool b, _ => by
    refine ⟨_, node_bool b, fun d hd => ?_⟩
    obtain rfl : b = true := hd
    exact accepts_unknown d
  | fuel + 1, _, @Plain.ref _ e ref key href hrefers hkey, _ => by
    obtain ⟨name, hname, ha⟩ := hnames key hkey
    refine ⟨_, by rw [lowerWithin, node_ref href hrefers, reference_outcome hrefers hname], ?_⟩
    intro d hd
    rw [accepts_toSchema]
    rcases hd with ⟨hn, rfl⟩ | hd
    · exact .inr ⟨by simp [Modified.allowsNull, isTrue_getD hn], rfl⟩
    · rw [href] at hd
      obtain ⟨key', n, hrefers', hn, hv⟩ := hd
      obtain rfl : key' = key := by
        have := hrefers'.componentKey
        rw [hrefers.componentKey] at this
        exact (Option.some.inj this).symm
      exact .inl (ha n d hn hv)
  | fuel + 1, _, @Plain.keywords _ e href hw hparts, hsize => by
    have ih := lowerWithin_serves component? V hV hnames site fuel
    by_cases he : e = []
    · refine ⟨{ schema := .unknown }, ?_, fun d _ => accepts_unknown d⟩
      rw [he]
      rfl
    have hstep : ∀ {e' d}, e'.get? "$ref" = none → Meets V e' d →
        Step component? V (.map e') d := fun h hm => .inr (by rw [h]; exact hm)
    have hp : ∀ n, IsPart e n → Plain known n ∧ Serves m (lowerWithin s site fuel) (V n) n := by
      intro n hn
      have hle : n.size ≤ fuel := by
        have := hn.size_lt
        omega
      obtain ⟨x, hx, -⟩ := ih n (hparts n hn) hle
      exact ⟨hparts n hn, x, hx, fun d hv => hV n d hv (hparts n hn) site fuel x hle hx⟩
    have hfalse : ∀ d, ¬ V (.bool false) d := by
      intro d hv
      have ha := hV _ _ hv (.bool false) site 1 _ (Nat.le_refl 1) (node_bool false)
      exact accepts_iff.mp ha
    obtain ⟨x, hx, ha⟩ := mapping_serves (s := s) hw hp
      (fun hall => by
        obtain ⟨v, hv⟩ := Option.isSome_iff_exists.mp hall
        have := size_beside_lt hv
        obtain ⟨x, hx, ha⟩ := ih _ (plain_beside hw href hparts) (by omega)
        exact ⟨x, hx, fun d hm => ha d (hstep (by rw [get?_beside (by decide), href]) hm)⟩)
      (fun t types ht hlen => by
        have := size_withType_lt (t := t) ht hlen
        obtain ⟨x, hx, ha⟩ := ih _ (plain_withType (t := t) hw href hparts) (by omega)
        refine ⟨x, hx, fun d hm => ha d (hstep ?_ hm)⟩
        rw [get?_withType_of_ne (by decide) (by decide), href])
      hfalse
    refine ⟨x, by rw [lowerWithin, node_mapping href he, hx], fun d hd => ha d ?_⟩
    refine Or.imp_right (fun hd => ?_) hd
    rwa [href] at hd

end Lowering

/-! ## Documents -/

/-- What names mean in a description: its components. -/
def Description.meaning (d : Description) (base : Meaning) : Meaning :=
  { base with named := d.named? }

section

open Lowering

variable {document : Value} {c : Choices} {d : Description} {known : String → Prop}

/-- A node that with the components it refers to uses only the keywords that are read. -/
def Description.SelfContained (d : Description) (n : Value) : Prop :=
  ∃ known : String → Prop, Plain known n ∧
    ∀ key, known key → ∃ node, d.component? key = some node ∧ Plain known node

theorem size_le_depthBound (hd : Description.ofDocument document c = .ok d) {n : Value}
    (hn : Within n document) : n.size ≤ depthBound d.setting.document := by
  obtain ⟨hdoc, -, -⟩ := Description.ofDocument_spec hd
  have := hn.size_le
  rw [hdoc, depthBound]
  omega

variable (hd : Description.ofDocument document c = .ok d)
  (hknown : ∀ key, known key → ∃ node, d.component? key = some node ∧ Plain known node)
include hd hknown

/-- Lowering a plain node ends with a schema. -/
theorem lowerWithin_ok (site : Site) {fuel : Nat} {n : Value} (hp : Plain known n)
    (hsize : n.size ≤ fuel) : ∃ x, (lowerWithin d.setting site fuel n).outcome = .ok x := by
  obtain ⟨x, hx, -⟩ := lowerWithin_serves (s := d.setting)
    (m := ⟨d.named?, fun _ _ => True, fun _ _ => True, fun _ _ => True⟩)
    d.component? (fun _ _ => False) (fun _ _ h => h.elim)
    (fun key hkey => by
      obtain ⟨node, hnode, -⟩ := hknown key hkey
      obtain ⟨name, hname, -⟩ := Description.component_named hd hnode
      exact ⟨name, hname, fun _ _ _ h => h.elim⟩) site fuel n hp hsize
  exact ⟨x, hx⟩

theorem lowerWithin_accepts {base : Meaning} {n : Value} {v : Datum} (h : Valid d.component? n v) :
    Plain known n → ∀ site fuel x, n.size ≤ fuel →
      (lowerWithin d.setting site fuel n).outcome = .ok x →
        Accepts (d.meaning base) x.toSchema v := by
  induction h with
  | of V hsub hstep ih =>
    intro hp site fuel x hsize hx
    obtain ⟨y, hy, ha⟩ := lowerWithin_serves (m := d.meaning base) (s := d.setting)
      d.component? V ih
      (fun key hkey => by
        obtain ⟨node, hnode, hplain⟩ := hknown key hkey
        obtain ⟨name, hname, hnamed⟩ := Description.component_named hd hnode
        refine ⟨name, hname, fun n v hn hv => ?_⟩
        obtain rfl := Option.some.inj (hnode.symm.trans hn)
        have hle := size_le_depthBound hd (Description.component?_within hd hnode)
        obtain ⟨y, hy⟩ := lowerWithin_ok hd hknown (.component key) hplain hle
        refine accepts_iff.mpr ⟨y.toSchema, ?_, ih node v hv hplain _ _ y hle hy⟩
        exact hnamed.trans (by
          rw [schema, lower, Logged.outcome_bind hy, Logged.outcome_pure]
          rfl)) site fuel _ hp hsize
    obtain rfl := Except.ok.inj (hy.symm.trans hx)
    exact ha _ hstep

end

/-- **Main statement.** In a document that is accepted, a node that uses only the keywords that are
read is lowered to a schema, and the schema accepts every datum that is valid for the node. -/
theorem schema_accepts_valid {document : Value} {c : Choices} {d : Description}
    (hd : Description.ofDocument document c = .ok d) (base : Meaning) (site : Site) {n : Value}
    (hn : Within n document) (hp : d.SelfContained n) :
    ∃ schema, (Lowering.schema d.setting site n).outcome = .ok schema ∧
      ∀ v, Valid d.component? n v → Accepts (d.meaning base) schema v := by
  obtain ⟨known, hp, hknown⟩ := hp
  have hle := size_le_depthBound hd hn
  obtain ⟨x, hx⟩ := lowerWithin_ok hd hknown site hp hle
  refine ⟨x.toSchema, ?_, fun v hv => lowerWithin_accepts hd hknown hv hp site _ x hle hx⟩
  rw [Lowering.schema, Lowering.lower, Logged.outcome_bind hx, Logged.outcome_pure]

/-! ## A component that refers to itself -/

/-- A link to a further link or to nothing. -/
def linkNode : Mapping := [
  (.str "type", .str "object"),
  (.str "properties", .map [(.str "next", .map [
    (.str "$ref", .str "#/components/schemas/Link"), (.str "nullable", .bool true)])]),
  (.str "required", .list [.str "next"])]

/-- A document with links as its only component. -/
def linkDocument : Value := .map [
  (.str "openapi", .str "3.0.0"),
  (.str "components", .map [(.str "schemas", .map [(.str "Link", .map linkNode)])])]

/-- The description in the document of links. -/
def linkDescription : Description where
  setting := {
    document := linkDocument, scalars := [], componentNames := [("Link", Name.typeOf "Link")] }
  paths := []
  components := .map [(.str "Link", .map linkNode)]

theorem refersTo_link : RefersTo (.str "#/components/schemas/Link") "Link" :=
  ⟨"Link".toList, congrArg Value.str (by decide), by decide, by decide⟩

theorem plain_link : Plain (· = "Link") (.map linkNode) := by
  refine .keywords (by simp [linkNode, Mapping.get?_cons]) ?_ ?_
  · constructor <;> simp [linkNode, Mapping.get?_cons, keywords]
    exact ⟨["next"], rfl⟩
  · intro n hn
    have hnext : n = .map [(.str "$ref", .str "#/components/schemas/Link"),
        (.str "nullable", .bool true)] := by
      simpa [IsPart, linkNode, Mapping.get?_cons, eq_comm] using hn
    rw [hnext]
    exact .ref (by simp [Mapping.get?_cons]) refersTo_link rfl

theorem linkDescription_selfContained : linkDescription.SelfContained (.map linkNode) := by
  refine ⟨_, plain_link, ?_⟩
  rintro _ rfl
  exact ⟨_, by simp [Description.component?, linkDescription, Mapping.get?_cons], plain_link⟩

/-- A link with any valid next link, or with none after it. -/
theorem valid_link {x : Datum}
    (hx : x = .null ∨ Valid linkDescription.component? (.map linkNode) x) :
    Valid linkDescription.component? (.map linkNode) (.object [("next", x)]) := by
  have hnext : Valid linkDescription.component?
      (.map [(.str "$ref", .str "#/components/schemas/Link"), (.str "nullable", .bool true)])
      x := by
    rw [valid_iff, Step]
    refine hx.imp (fun h => ⟨by simp [Mapping.get?_cons], h⟩) fun h => ?_
    simp only [Mapping.get?_cons, if_true]
    exact ⟨"Link", .map linkNode, refersTo_link,
      by simp [Description.component?, linkDescription, Mapping.get?_cons], h⟩
  rw [valid_iff, Step]
  right
  simp only [linkNode, Mapping.get?_cons]
  constructor <;> simp [Mapping.get?_cons, TypeAllows, HasType]
  rintro key n y rfl rfl hy
  obtain rfl : x = y := by simpa using hy
  exact hnext

/-- The schema of links accepts a link whose next link is the last. -/
theorem linkDescription_accepts : ∃ schema,
    (Lowering.schema linkDescription.setting .operation (.map linkNode)).outcome = .ok schema ∧
      Accepts (linkDescription.meaning ⟨fun _ => none, fun _ _ => True, fun _ _ => True,
        fun _ _ => True⟩) schema (.object [("next", .object [("next", .null)])]) := by
  obtain ⟨schema, hs, ha⟩ := schema_accepts_valid
    (show Description.ofDocument linkDocument {} = .ok linkDescription from rfl) _ .operation
    (.map (List.mem_cons_of_mem _ List.mem_cons_self)
      (.map List.mem_cons_self (.map List.mem_cons_self .self)))
    linkDescription_selfContained
  exact ⟨schema, hs, ha _ (valid_link (.inr (valid_link (.inl rfl))))⟩

end SchemaForge.OpenApi
