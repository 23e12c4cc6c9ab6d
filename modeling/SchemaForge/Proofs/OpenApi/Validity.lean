import SchemaForge.OpenApi.Lowering
import SchemaForge.Proofs.Acceptance.Schema
import SchemaForge.Proofs.Value.Mapping

/-!
# Validity of data

When a JSON value is valid for a schema node of a document. A node is read by JSON Schema, with
`nullable: true` admitting null as well, `oneOf` asking for at least one member, and a node with
properties but no type being of type object.

* `Meets`: the keywords of a node hold of a datum, given which data are valid for the parts.
* `Valid`: the least relation that `Step` describes; components may refer to each other.
* `Plain`: a node, with its parts, uses only the keywords that are read here.
-/

namespace SchemaForge.OpenApi

/-! ## Types -/

/-- A datum is of a named type. -/
def HasType : String → Datum → Prop
  | "null", .null => True
  | "boolean", .bool _ => True
  | "integer", .number q => q.isInt
  | "number", .number _ => True
  | "string", .text _ => True
  | "array", .list _ => True
  | "object", .object _ => True
  | _, _ => False

/-- What a node says of the type of a datum. -/
def TypeAllows (e : Mapping) (d : Datum) : Prop :=
  match e.get? "type" with
  | some (.atom (.str t)) => HasType t d
  | some (.list ts) => ∃ t, Value.str t ∈ ts ∧ HasType t d
  | some _ => True
  | none => e.has "properties" ∨ e.has "additionalProperties" → HasType "object" d

/-! ## Keywords -/

/-- The keywords of a node hold of a datum, when `V` tells which data are valid for the parts. -/
structure Meets (V : Value → Datum → Prop) (e : Mapping) (d : Datum) : Prop where
  type : TypeAllows e d
  const : ∀ v, e.get? "const" = some v → Denotes v d
  enum : ∀ vs, e.get? "enum" = some (.list vs) → ∃ v ∈ vs, Denotes v d
  oneOf : ∀ ns, e.get? "oneOf" = some (.list ns) → ∃ n ∈ ns, V n d
  anyOf : ∀ ns, e.get? "anyOf" = some (.list ns) → ∃ n ∈ ns, V n d
  allOf : ∀ ns, e.get? "allOf" = some (.list ns) → ∀ n ∈ ns, V n d
  required : ∀ keys members, e.get? "required" = some (.list keys) → d = .object members →
    ∀ key, Value.str key ∈ keys → (members.lookup key).isSome
  properties : ∀ (ps : Mapping) members, e.get? "properties" = some (.map ps) →
    d = .object members → ∀ key n x, ps.get? key = some n → members.lookup key = some x → V n x
  additional : ∀ n members, e.get? "additionalProperties" = some n → d = .object members →
    ∀ member ∈ members,
      (∀ ps : Mapping, e.get? "properties" = some (.map ps) → ps.get? member.1 = none) →
      V n member.2
  items : ∀ n xs, e.get? "items" = some n → d = .list xs → ∀ x ∈ xs, V n x
  bounds : ∀ q, d = .number q → WithinBounds (e.getD "minimum") (e.getD "maximum") q
  length : ∀ s, d = .text s → WithinBounds (e.getD "minLength") (e.getD "maxLength") s.length

/-- A reference leads to a key of the component schemas. -/
def RefersTo (ref : Value) (key : String) : Prop :=
  ∃ token : List Char, ref = .str (String.ofList (Lowering.componentStart ++ token)) ∧
    '/' ∉ token ∧ key = String.ofList (Pointer.unescape token)

/-- A datum is valid for a node, when `V` tells which data are valid for its parts and for the
components. Beside a reference only `nullable` counts. -/
def Step (component? : String → Option Value) (V : Value → Datum → Prop) : Value → Datum → Prop
  | .atom (.bool b), _ => b = true
  | .map e, d => (Mapping.get? e "nullable" = some (.bool true) ∧ d = .null) ∨
      match Mapping.get? e "$ref" with
      | some ref => ∃ key n, RefersTo ref key ∧ component? key = some n ∧ V n d
      | none => Meets V e d
  | _, _ => False

/-- A datum is valid for a node: the least relation that holds as soon as a step finds the datum
valid by what is valid already. -/
inductive Valid (component? : String → Option Value) : Value → Datum → Prop
  | of {n : Value} {d : Datum} (V : Value → Datum → Prop) :
    (∀ n d, V n d → Valid component? n d) → Step component? V n d → Valid component? n d

/-! ## Nodes that use only these keywords -/

/-- The keywords that are read, and descriptions. -/
def keywords : List String := [
  "$ref", "type", "nullable", "enum", "const", "oneOf", "anyOf", "allOf", "properties", "required",
  "additionalProperties", "items", "minimum", "maximum", "minLength", "maxLength", "description"]

/-- The values under the keywords have the shapes that the keywords ask for. -/
structure WellShaped (e : Mapping) : Prop where
  keys : ∀ entry ∈ e, ∃ k ∈ keywords, entry.1 = .str k
  type : ∀ v, e.get? "type" = some v →
    (∃ t, v = .str t) ∨ ∃ ts : List String, v = .list (ts.map Value.str)
  enum : ∀ v, e.get? "enum" = some v → ∃ vs, v = .list vs
  lists : ∀ k ∈ ["oneOf", "anyOf", "allOf"], ∀ v, e.get? k = some v → ∃ ns, v = .list ns
  required : ∀ v, e.get? "required" = some v → ∃ ks : List String, v = .list (ks.map Value.str)
  properties : ∀ v, e.get? "properties" = some v → ∃ ps : Mapping, v = .map ps ∧
    (ps.map (·.1)).Nodup ∧ ∀ entry ∈ ps, ∃ k, entry.1 = .str k

/-- The parts of a node. -/
def IsPart (e : Mapping) (n : Value) : Prop :=
  (∃ k ∈ ["oneOf", "anyOf", "allOf"], ∃ ns, e.get? k = some (.list ns) ∧ n ∈ ns) ∨
  (∃ (ps : Mapping) (key : String), e.get? "properties" = some (.map ps) ∧ ps.get? key = some n) ∨
  ∃ k ∈ ["additionalProperties", "items"], e.get? k = some n

/-- A node that with its parts uses only the keywords that are read, well shaped; `known` holds the
keys of components that may be referred to. -/
inductive Plain (known : String → Prop) : Value → Prop
  | bool (b : Bool) : Plain known (.bool b)
  | ref {e : Mapping} {ref : Value} {key : String} :
    e.get? "$ref" = some ref → RefersTo ref key → known key → Plain known (.map e)
  | keywords {e : Mapping} :
    e.get? "$ref" = none → WellShaped e → (∀ n, IsPart e n → Plain known n) → Plain known (.map e)

variable {V W : Value → Datum → Prop} {e : Mapping} {d : Datum}

/-! ## Monotonicity -/

theorem Meets.mono (h : ∀ n d, V n d → W n d) (hm : Meets V e d) : Meets W e d where
  type := hm.type
  const := hm.const
  enum := hm.enum
  oneOf ns hns := (hm.oneOf ns hns).imp fun n hn => ⟨hn.1, h n d hn.2⟩
  anyOf ns hns := (hm.anyOf ns hns).imp fun n hn => ⟨hn.1, h n d hn.2⟩
  allOf ns hns n hn := h n d (hm.allOf ns hns n hn)
  required := hm.required
  properties ps members hps hd key n x hn hx :=
    h n x (hm.properties ps members hps hd key n x hn hx)
  additional n members hn hd x hx hk := h n x.2 (hm.additional n members hn hd x hx hk)
  items n xs hn hd x hx := h n x (hm.items n xs hn hd x hx)
  bounds := hm.bounds
  length := hm.length

theorem Step.mono {component? : String → Option Value} (h : ∀ n d, V n d → W n d) {n : Value}
    (hs : Step component? V n d) : Step component? W n d := by
  cases n with
  | atom a => cases a <;> exact hs
  | list items => exact hs
  | map e =>
    refine Or.imp_right (fun hs => ?_) hs
    rcases href : Mapping.get? e "$ref" with _ | ref <;> rw [href] at hs
    · exact hs.mono h
    · obtain ⟨key, n, hk, hn, hv⟩ := hs
      exact ⟨key, n, hk, hn, h n d hv⟩

theorem valid_iff {component? : String → Option Value} {n : Value} :
    Valid component? n d ↔ Step component? (Valid component?) n d := by
  constructor
  · rintro ⟨V, hV, h⟩
    exact h.mono hV
  · exact .of _ fun _ _ h => h

/-! ## References -/

theorem RefersTo.componentKey {ref : Value} {key : String} (h : RefersTo ref key) :
    Lowering.componentKey? ref = some key := by
  obtain ⟨token, rfl, -, rfl⟩ := h
  simp [Lowering.componentKey?]

/-! ## Variants of a node -/

theorem WellShaped.get?_eq_none (h : WellShaped e) {k : String} (hk : k ∉ keywords) :
    e.get? k = none := by
  rw [← Option.not_isSome_iff_eq_none, Mapping.get?_isSome]
  intro hm
  obtain ⟨entry, he, hek⟩ := List.mem_map.mp hm
  obtain ⟨k', hk', he'⟩ := h.keys entry he
  rw [hek] at he'
  cases he'
  exact hk hk'

/-- The keywords that variants of a node share. -/
def steadyKeywords : List String := [
  "$ref", "const", "enum", "oneOf", "anyOf", "properties", "required", "additionalProperties",
  "items", "minimum", "maximum", "minLength", "maxLength"]

/-- A node that differs from another in `type`, `nullable` and the description at most, and may lack
its `allOf`. -/
structure Variant (e' e : Mapping) : Prop where
  steady : ∀ k ∈ steadyKeywords, e'.get? k = e.get? k
  allOf : ∀ v, e'.get? "allOf" = some v → e.get? "allOf" = some v
  keys : ∀ entry ∈ e', entry.1 ∈ e.map (·.1) ∨ ∃ k ∈ keywords, entry.1 = .str k

variable {e' : Mapping} (hv : Variant e' e)
include hv

/-- The keywords hold for a variant when its type does. -/
theorem Variant.meets (h : Meets V e d) (type : TypeAllows e' d) : Meets V e' d where
  type := type
  const := by rw [hv.steady _ (by decide)]; exact h.const
  enum := by rw [hv.steady _ (by decide)]; exact h.enum
  oneOf := by rw [hv.steady _ (by decide)]; exact h.oneOf
  anyOf := by rw [hv.steady _ (by decide)]; exact h.anyOf
  allOf ns hns := h.allOf ns (hv.allOf _ hns)
  required := by rw [hv.steady _ (by decide)]; exact h.required
  properties := by rw [hv.steady _ (by decide)]; exact h.properties
  additional := by rw [hv.steady _ (by decide), hv.steady _ (by decide)]; exact h.additional
  items := by rw [hv.steady _ (by decide)]; exact h.items
  bounds := by
    rw [Mapping.getD, Mapping.getD, hv.steady "minimum" (by decide),
      hv.steady "maximum" (by decide)]
    exact h.bounds
  length := by
    rw [Mapping.getD, Mapping.getD, hv.steady "minLength" (by decide),
      hv.steady "maxLength" (by decide)]
    exact h.length

theorem Variant.lists {k : String} (hk : k ∈ ["oneOf", "anyOf", "allOf"]) {v : Value}
    (h : e'.get? k = some v) : e.get? k = some v := by
  simp only [List.mem_cons, List.not_mem_nil, or_false] at hk
  rcases hk with rfl | rfl | rfl
  · rwa [hv.steady _ (by decide)] at h
  · rwa [hv.steady _ (by decide)] at h
  · exact hv.allOf v h

theorem Variant.isPart {n : Value} (h : IsPart e' n) : IsPart e n := by
  rcases h with ⟨k, hk, ns, hns, hn⟩ | ⟨ps, key, hps, hn⟩ | ⟨k, hk, hn⟩
  · exact .inl ⟨k, hk, ns, hv.lists hk hns, hn⟩
  · exact .inr (.inl ⟨ps, key, by rwa [hv.steady _ (by decide)] at hps, hn⟩)
  · refine .inr (.inr ⟨k, hk, ?_⟩)
    simp only [List.mem_cons, List.not_mem_nil, or_false] at hk
    rcases hk with rfl | rfl <;> rwa [hv.steady _ (by decide)] at hn

theorem Variant.wellShaped (h : WellShaped e)
    (type : ∀ v, e'.get? "type" = some v → (∃ t, v = .str t) ∨ e.get? "type" = some v) :
    WellShaped e' where
  keys entry he := by
    rcases hv.keys entry he with hm | hk
    · obtain ⟨x, hx, hxe⟩ := List.mem_map.mp hm
      exact hxe ▸ h.keys x hx
    · exact hk
  type v hv := (type v hv).elim .inl (h.type v)
  enum := by rw [hv.steady _ (by decide)]; exact h.enum
  lists k hk v hkv := h.lists k hk v (hv.lists hk hkv)
  required := by rw [hv.steady _ (by decide)]; exact h.required
  properties := by rw [hv.steady _ (by decide)]; exact h.properties

omit hv

/-! ## The node with one of its types, and the node without its `allOf` -/

open Lowering

theorem get?_withType {v : Value} {k : String} : (withType e v).get? k =
    if "nullable" = k then some (.bool false) else if "type" = k then some v else e.get? k := by
  rw [withType, Mapping.get?_insert, Mapping.get?_insert]

theorem get?_withType_of_ne {v : Value} {k : String} (hn : "nullable" ≠ k) (ht : "type" ≠ k) :
    (withType e v).get? k = e.get? k := by
  rw [get?_withType, if_neg hn, if_neg ht]

theorem variant_withType (v : Value) : Variant (withType e v) e where
  steady k hk := get?_withType_of_ne (by rintro rfl; revert hk; decide)
    (by rintro rfl; revert hk; decide)
  allOf w hw := by rwa [get?_withType_of_ne (by decide) (by decide)] at hw
  keys entry he := by
    rcases Mapping.mem_insert he with he | he
    · exact .inr ⟨"nullable", by decide, he⟩
    · obtain ⟨x, hx, hxe⟩ := List.mem_map.mp he
      rcases Mapping.mem_insert hx with hx | hx
      · exact .inr ⟨"type", by decide, hxe ▸ hx⟩
      · exact .inl (hxe ▸ hx)

/-- **The keywords hold for the node with one of its types.** -/
theorem Meets.withType {t : String} (h : Meets V e d) (ht : HasType t d) :
    Meets V (withType e (.str t)) d := by
  refine (variant_withType _).meets h ?_
  rw [TypeAllows, get?_withType]
  exact ht

theorem get?_without {ks : List String} {k : String} :
    (without e ks).get? k = if k ∈ ks then none else e.get? k := by
  have hp : (ks.any fun k' => Atom.str k == .str k') = true ↔ k ∈ ks := by simp
  by_cases h : k ∈ ks
  · rw [if_pos h]
    exact Mapping.get?_filter_none fun w => by rw [hp.mpr h]; rfl
  · rw [if_neg h]
    exact Mapping.get?_filter fun w => by rw [Bool.eq_false_iff.mpr (mt hp.mp h)]; rfl

/-- The node that is lowered beside the members of its `allOf`. -/
abbrev beside (e : Mapping) : Mapping := without e ["allOf", "description"]

theorem get?_beside {k : String} (h : k ∉ ["allOf", "description"]) :
    (beside e).get? k = e.get? k := by
  rw [get?_without, if_neg h]

theorem variant_beside : Variant (beside e) e where
  steady k hk := get?_beside (by revert hk k; decide)
  allOf v hv := by
    rw [get?_without, if_pos (by decide)] at hv
    cases hv
  keys entry he := .inl (List.mem_map_of_mem (List.mem_of_mem_filter he))

/-- **The keywords hold for the node without its `allOf`.** -/
theorem Meets.beside (h : Meets V e d) : Meets V (beside e) d := by
  refine variant_beside.meets h ?_
  rw [TypeAllows, Mapping.has, Mapping.has, get?_beside (by decide), get?_beside (by decide),
    get?_beside (by decide)]
  exact h.type

/-! ## Plain nodes stay plain and become smaller -/

variable {known : String → Prop}

theorem Variant.plain (hv : Variant e' e)
    (type : ∀ v, e'.get? "type" = some v → (∃ t, v = .str t) ∨ e.get? "type" = some v)
    (h : WellShaped e) (href : e.get? "$ref" = none) (hp : ∀ n, IsPart e n → Plain known n) :
    Plain known (.map e') :=
  .keywords (by rwa [hv.steady _ (by decide)]) (hv.wellShaped h type) fun n hn =>
    hp n (hv.isPart hn)

theorem plain_withType {t : String} (h : WellShaped e) (href : e.get? "$ref" = none)
    (hp : ∀ n, IsPart e n → Plain known n) : Plain known (.map (withType e (.str t))) := by
  refine (variant_withType _).plain (fun v hv => .inl ⟨t, ?_⟩) h href hp
  rw [get?_withType] at hv
  exact (Option.some.inj hv).symm

theorem plain_beside (h : WellShaped e) (href : e.get? "$ref" = none)
    (hp : ∀ n, IsPart e n → Plain known n) : Plain known (.map (beside e)) := by
  refine variant_beside.plain (fun v hv => .inr ?_) h href hp
  rwa [get?_beside (by decide)] at hv

theorem IsPart.size_lt {n : Value} (h : IsPart e n) : n.size < (Value.map e).size := by
  rw [Value.size]
  rcases h with ⟨k, -, ns, hns, hn⟩ | ⟨ps, key, hps, hn⟩ | ⟨k, -, hn⟩
  · have h₁ := Mapping.size_le_of_get? hns
    have h₂ := Value.size_le_sizeItems hn
    rw [Value.size] at h₁
    omega
  · have h₁ := Mapping.size_le_of_get? hps
    have h₂ := Mapping.size_le_of_get? hn
    rw [Value.size] at h₁
    omega
  · have := Mapping.size_le_of_get? hn
    omega

/-- Two types or more take more room than one type and the mark that null is no other. -/
theorem size_withType_lt {t : String} {types : List Value} (h : e.get? "type" = some (.list types))
    (hl : 2 ≤ types.length) :
    (Value.map (withType e (.str t))).size < (Value.map e).size := by
  have h₁ := Mapping.sizeEntries_insert (m := e) (k := "type") (v := .str t)
  have h₂ := Mapping.sizeEntries_insert (m := e.insert (.str "type") (.str t)) (k := "nullable")
    (v := .bool false)
  have h₃ := Value.length_le_sizeItems types
  rw [h, Option.elim_some, Value.size] at h₁
  rw [Value.size, Value.size, withType]
  simp only [Value.size] at h₁ h₂
  omega

theorem size_beside_lt {v : Value} (h : e.get? "allOf" = some v) :
    (Value.map (beside e)).size < (Value.map e).size := by
  rw [Value.size, Value.size]
  have h₁ := Mapping.sizeEntries_filter_add_le
    (p := fun entry => !(["allOf", "description"].any fun k => entry.1 == .str k))
    (Mapping.mem_of_get? h) rfl
  have h₂ := v.size_pos
  rw [beside, without]
  dsimp only at h₁
  omega

end SchemaForge.OpenApi
