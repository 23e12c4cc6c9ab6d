import SchemaForge.Proofs.OpenApi.Chains
import SchemaForge.Proofs.OpenApi.Closure
import SchemaForge.Proofs.OpenApi.Soundness

/-!
# Which references exist

A reference to a component is looked up by its key; every other one is followed from the root of the
document.

* `RefFree`: no reference stands in a value; `refFree_of_mem_parts`: nor in the parts of a node.
* `Lowering.Misses`: a step meets a reference without a value.
* **`Lowering.not_misses_of_refFree`**: lowering a value without references meets none.
* `leads_component`: following the address of a component finds what looking it up by its key finds.
* **`Description.reference_exists`**: where lowering a reference meets none without a value.
-/

namespace SchemaForge

/-! ## Values without references -/

namespace Mapping

variable {m : Mapping} {k : String} {v : Value}

theorem get?_of_getD (h : m.getD k = v) (hv : v ≠ .null) : m.get? k = some v := by
  rcases hk : m.get? k with _ | w
  · rw [getD_eq_null hk] at h
    exact absurd h.symm hv
  · rw [getD_eq hk] at h
    rw [h]

theorem value_of_mem_insert {a : Atom} {e : Atom × Value} (h : e ∈ m.insert a v) :
    e.2 = v ∨ e ∈ m := by
  induction m with
  | nil =>
    rw [insert_nil, List.mem_singleton] at h
    exact .inl (congrArg Prod.snd h)
  | cons x m ih =>
    rw [insert_cons] at h
    rw [List.mem_cons]
    split at h
    · rcases List.mem_cons.mp h with rfl | h
      · exact .inl rfl
      · exact .inr (.inr h)
    · rcases List.mem_cons.mp h with rfl | h
      · exact .inr (.inl rfl)
      · exact (ih h).imp_right .inr

end Mapping

namespace OpenApi

/-- No reference stands in a value. -/
def RefFree (v : Value) : Prop := ∀ e : Mapping, Within (.map e) v → e.get? "$ref" = none

variable {e : Mapping} {k : String} {v w : Value}

theorem RefFree.within (h : RefFree v) (hw : Within w v) : RefFree w :=
  fun e he => h e (he.trans hw)

theorem refFree_atom (a : Atom) : RefFree (.atom a) := fun _ h => nomatch h

theorem RefFree.item {items : List Value} (h : RefFree (.list items)) (hv : v ∈ items) :
    RefFree v :=
  h.within (.list hv .self)

theorem refFree_list {items : List Value} : RefFree (.list items) ↔ ∀ v ∈ items, RefFree v := by
  refine ⟨fun h v hv => h.item hv, fun h e he => ?_⟩
  cases he with
  | list hm hw => exact h _ hm e hw

theorem refFree_map :
    RefFree (.map e) ↔ e.get? "$ref" = none ∧ ∀ entry ∈ e, RefFree entry.2 := by
  refine ⟨fun h => ⟨h e .self, fun entry he => h.within (.map he .self)⟩, ?_⟩
  intro ⟨hr, hall⟩ e' he
  cases he with
  | self => exact hr
  | map hm hw => exact hall _ hm e' hw

theorem RefFree.getD (h : RefFree (.map e)) : RefFree (e.getD k) := by
  rcases hk : e.get? k with _ | v
  · rw [Mapping.getD_eq_null hk]
    exact refFree_atom _
  · rw [Mapping.getD_eq hk]
    exact (refFree_map.mp h).2 _ (Mapping.mem_of_get? hk)

theorem RefFree.insert (h : RefFree (.map e)) (hk : k ≠ "$ref") (hv : RefFree v) :
    RefFree (.map (e.insert (.str k) v)) := by
  rw [refFree_map] at h ⊢
  refine ⟨by rw [Mapping.get?_insert, if_neg hk, h.1], fun entry he => ?_⟩
  rcases Mapping.value_of_mem_insert he with hval | he
  · exact hval ▸ hv
  · exact h.2 entry he

theorem RefFree.filter (h : RefFree (.map e)) (p : Atom × Value → Bool) :
    RefFree (.map (e.filter p)) := by
  rw [refFree_map] at h ⊢
  refine ⟨?_, fun entry he => h.2 entry (List.mem_of_mem_filter he)⟩
  rw [← Option.not_isSome_iff_eq_none, Mapping.get?_isSome] at h ⊢
  intro hk
  obtain ⟨entry, he, hname⟩ := List.mem_map.mp hk
  exact h.1 (List.mem_map.mpr ⟨entry, List.mem_of_mem_filter he, hname⟩)

namespace Lowering

variable {s : Setting} {site : Site}

/-! ## Parts without references -/

theorem refFree_of_listAt? (h : RefFree (.map e)) {items : List Value}
    (hl : listAt? e k = some items) (hv : v ∈ items) : RefFree v :=
  ((refFree_map.mp h).2 _ (Mapping.mem_of_get? (listAt?_eq_some hl))).item hv

theorem refFree_of_mem_objectParts (h : RefFree (.map e)) (hv : v ∈ objectParts e) : RefFree v := by
  rcases List.mem_append.mp hv with hv | hv
  · unfold valuesOf at hv
    split at hv
    · rename_i nodes hnodes
      obtain ⟨entry, he, rfl⟩ := List.mem_map.mp hv
      have hfree : RefFree (.map nodes) := hnodes ▸ h.getD
      exact (refFree_map.mp hfree).2 entry he
    · cases hv
  · rw [extraParts_eq] at hv
    split at hv
    · exact List.mem_singleton.mp hv ▸ h.getD
    · cases hv

theorem refFree_of_mem_typedParts (h : RefFree (.map e)) {type : Value}
    (hv : v ∈ typedParts e type) : RefFree v := by
  unfold typedParts at hv
  split at hv
  · exact refFree_of_mem_objectParts h hv
  split at hv
  · split at hv
    · exact refFree_of_listAt? h ‹_› hv
    · split at hv
      · cases hv
      · exact List.mem_singleton.mp hv ▸ h.getD
  · cases hv

theorem refFree_of_mem_shapeParts (h : RefFree (.map e)) {type : Value}
    (hv : v ∈ shapeParts s e type) : RefFree v := by
  unfold shapeParts at hv
  split at hv
  · cases hv
  split at hv
  · split at hv
    · rename_i nodes hnodes
      rcases Option.or_eq_some_iff.mp hnodes with hl | ⟨-, hl⟩
      · exact refFree_of_listAt? h hl hv
      · exact refFree_of_listAt? h hl hv
    · split at hv
      · split at hv
        · rcases List.mem_append.mp hv with hv | hv
          · exact refFree_of_listAt? h ‹_› hv
          · exact List.mem_singleton.mp hv ▸ h.filter _
        · exact refFree_of_listAt? h ‹_› hv
      · exact refFree_of_mem_typedParts h hv
  · cases hv

theorem refFree_of_mem_typesOf (h : RefFree v) {type : Value} (ht : type ∈ (typesOf v).2) :
    RefFree type := by
  unfold typesOf at ht
  split at ht
  · exact h.item (List.mem_of_mem_filter ht)
  · exact List.mem_singleton.mp ht ▸ h

/-- **No reference stands in the parts of a node in which none stands.** -/
theorem refFree_of_mem_parts (h : RefFree (.map e)) (hv : v ∈ parts s e) : RefFree v := by
  have htypes : ∀ type ∈ (typesOf (e.getD "type")).2, RefFree type := fun _ =>
    refFree_of_mem_typesOf h.getD
  unfold parts at hv
  rcases hto : typesOf (e.getD "type") with ⟨nullAmong, _ | ⟨first, _ | ⟨second, rest⟩⟩⟩
  · rw [hto] at hv
    exact refFree_of_mem_shapeParts h hv
  · rw [hto] at hv
    exact refFree_of_mem_shapeParts h hv
  · rw [hto] at hv htypes
    obtain ⟨type, ht, rfl⟩ := List.mem_map.mp hv
    exact (h.insert (by decide) (htypes type ht)).insert (by decide) (refFree_atom _)

/-! ## Steps that meet a reference without a value -/

/-- A step meets a reference without a value: it ends with it, or notes it. -/
def Misses {α : Type} (x : Lower α) : Prop :=
  (∃ err, x.outcome = .error (.unresolved err)) ∨ ∃ key err, .unresolvedInComponent key err ∈ x.log

namespace Misses

variable {α β : Type}

theorem pure {a : α} : ¬ Misses (Pure.pure a) := by
  rintro (⟨err, h⟩ | ⟨key, err, h⟩) <;> cases h

theorem fault {f : Fault} : ¬ Misses (Logged.stop (.fault f) : Lower α) := by
  rintro (⟨err, h⟩ | ⟨key, err, h⟩) <;> cases h

theorem bind {x : Lower α} {f : α → Lower β} (h : Misses (x >>= f)) :
    Misses x ∨ ∃ a, x.outcome = .ok a ∧ Misses (f a) := by
  rcases h with ⟨err, h⟩ | ⟨key, err, h⟩
  · exact (Logged.outcome_bind_eq_error h).imp (fun h => .inl ⟨err, h⟩)
      fun ⟨a, ha, h⟩ => ⟨a, ha, .inl ⟨err, h⟩⟩
  · exact (Logged.mem_log_bind h).imp (fun h => .inr ⟨key, err, h⟩)
      fun ⟨a, ha, h⟩ => ⟨a, ha, .inr ⟨key, err, h⟩⟩

theorem map {x : Lower α} {g : α → β} (h : Misses (g <$> x)) : Misses x := by
  rw [map_eq_pure_bind] at h
  exact h.bind.resolve_right fun ⟨_, _, h⟩ => pure h

theorem mapM {f : α → Lower β} {l : List α} (h : Misses (l.mapM f)) : ∃ a ∈ l, Misses (f a) := by
  rcases h with ⟨err, h⟩ | ⟨key, err, h⟩
  · obtain ⟨a, ha, h⟩ := Logged.outcome_mapM_eq_error h
    exact ⟨a, ha, .inl ⟨err, h⟩⟩
  · obtain ⟨a, ha, h⟩ := Logged.mem_log_mapM h
    exact ⟨a, ha, .inr ⟨key, err, h⟩⟩

end Misses

/-- **Lowering a value without references meets none without a value.** -/
theorem not_misses_of_refFree : ∀ (depth : Nat) {v : Value}, RefFree v →
    ¬ Misses (lowerWithin s site depth v)
  | 0, _, _ => Misses.fault
  | depth + 1, .atom a, _ => by
    rw [lowerWithin]
    unfold node
    split
    · exact Misses.pure
    · cases ‹Value.atom a = _›
    · exact Misses.pure
  | depth + 1, .list items, _ => Misses.pure
  | depth + 1, .map e, hfree => by
    rw [lowerWithin]
    by_cases he : e = []
    · rw [he]
      exact Misses.pure
    rw [node_mapping (refFree_map.mp hfree).1 he]
    rcases mapping_cases s e with ⟨f, hstop⟩ | ⟨build, -, hbuild⟩
    · rw [hstop]
      exact Misses.fault
    · rw [hbuild]
      intro h
      obtain ⟨part, hpart, h⟩ := h.map.mapM
      exact not_misses_of_refFree depth (refFree_of_mem_parts hfree hpart) h

/-- A reference to a value without references is missed when it has no target. -/
theorem misses_reference {sub : Value → Lower Modified} {ref : Value}
    (hsub : ∀ v, target s (.map e) ref = .ok (.node v) → ¬ Misses (sub v)) :
    Misses (reference s site sub e ref) ↔
      ∃ err, target s (.map e) ref = .error (.unresolved err) := by
  unfold reference
  rcases ht : target s (.map e) ref with (f | err) | (name | v)
  · exact iff_of_false Misses.fault nofun
  · refine iff_of_true ?_ ⟨err, rfl⟩
    cases site with
    | component key => exact .inr ⟨key, err, List.mem_cons_self⟩
    | operation => exact .inl ⟨err, rfl⟩
  · exact iff_of_false Misses.pure nofun
  · exact iff_of_false (hsub v ht) nofun

end Lowering

/-! ## Components by their address -/

open Pointer

theorem Pointer.Leads.within {ts : List (List Char)} (h : Leads v ts w) : Within v w := by
  induction h with
  | here => exact .self
  | key hk _ ih => exact .map (Mapping.mem_of_get? hk) ih
  | index _ hk _ ih => exact .list (List.mem_of_getElem? hk) ih

/-- The keys of a reference that begins like one to a component. -/
theorem keysOf_component (rest : List Char) : keysOf ("components/schemas/".toList ++ rest) =
    "components".toList :: "schemas".toList :: keysOf rest := by
  have hsplit : ("components/schemas/".toList ++ rest).splitOn '/' =
      "components".toList :: "schemas".toList :: rest.splitOn '/' := by
    rw [show "components/schemas/".toList ++ rest =
      "components".toList ++ '/' :: ("schemas".toList ++ '/' :: rest) from rfl,
      List.splitOn_append_cons_self_of_not_mem (by decide),
      List.splitOn_append_cons_self_of_not_mem (by decide)]
  rw [keysOf, hsplit]
  rfl

theorem mappingAt_cases {m : Mapping} {r : Refusal} (h : mappingAt e k r = .ok m) :
    e.getD k = .map m ∨ m = [] ∧ ∀ m', e.getD k ≠ .map m' := by
  unfold mappingAt at h
  split at h
  · rename_i m' hm
    cases h
    exact .inl hm
  · rename_i hm
    split at h
    · cases h
    · cases h
      exact .inr ⟨rfl, hm⟩

namespace Description

variable {document : Value} {c : Choices} {d : Description} {components : Mapping}

/-- **The address of a component leads to what is found by its key.** -/
theorem leads_component (h : ofDocument document c = .ok d) (hc : d.components = .map components)
    (key : List Char) :
    (∃ v, Leads v ["components".toList, "schemas".toList, key] document) ↔
      (components.get? (String.ofList key)).isSome := by
  obtain ⟨entries, members, _, _, _, rfl, hmembers, -, rfl⟩ := ofDocument_eq h
  dsimp only at hc
  constructor
  · rintro ⟨v, hlead⟩
    obtain ⟨w, hw, hlead⟩ := leads_map.mp hlead
    rw [String.ofList_toList] at hw
    obtain ⟨e, rfl⟩ := hlead.map_of_head rfl
    obtain rfl : members = e := by
      rcases mappingAt_cases hmembers with hm | ⟨-, hm⟩
      · rw [Mapping.getD_eq hw] at hm
        exact (Value.map.inj hm).symm
      · exact absurd (Mapping.getD_eq hw) (hm e)
    obtain ⟨w, hw, hlead⟩ := leads_map.mp hlead
    rw [String.ofList_toList] at hw
    rw [Mapping.getD_eq hw] at hc
    cases hlead with
    | key hk _ =>
      obtain ⟨x, m, rfl⟩ := List.exists_cons_of_ne_nil (List.ne_nil_of_mem (Mapping.mem_of_get? hk))
      rw [← Value.map.inj hc, hk]
      rfl
    | index _ hk _ =>
      have hne := List.ne_nil_of_mem (List.mem_of_getElem? hk)
      obtain ⟨x, items, rfl⟩ := List.exists_cons_of_ne_nil hne
      cases hc
  · intro hk
    obtain ⟨v, hv⟩ := Option.isSome_iff_exists.mp hk
    split_ifs at hc
    · have hschemas := Mapping.get?_of_getD hc nofun
      rcases mappingAt_cases hmembers with hm | ⟨rfl, -⟩
      · exact ⟨v, .key (Mapping.get?_of_getD hm nofun) (.key hschemas (.key hv .here))⟩
      · cases hschemas
    · cases hc
      cases hv

end Description

/-! ## What lowering a reference meets -/

namespace Lowering

variable {s : Setting} {site : Site} {ref : String} {text : List Char}

/-- A reference is to a component when it begins like one. -/
theorem componentKey?_cases (ref : String) :
    (∃ rest, ref.toList = componentStart ++ rest ∧
      componentKey? (.str ref) = some (String.ofList (keyOf rest))) ∨
      ((∀ rest, ref.toList ≠ componentStart ++ rest) ∧ componentKey? (.str ref) = none) := by
  simp only [componentKey?, List.isPrefixOf_iff_prefix]
  split_ifs with hp
  · obtain ⟨rest, hrest⟩ := hp
    refine .inl ⟨rest, hrest.symm, ?_⟩
    rw [← hrest, List.drop_left, unescape_eq_keyOf]
  · exact .inr ⟨fun rest hrest => hp ⟨rest, hrest.symm⟩, rfl⟩

/-- A reference that is not to a component stands for what its keys lead to, a value that is no
reference. -/
theorem target_local (hkey : componentKey? (.str ref) = none) (hl : local? ref = some text)
    (hlegible : Legible s.document (keysOf text))
    (hend : ∀ v, Leads v (keysOf text) s.document → refOf? v = none) :
    (∃ v, target s (refNode ref) (.str ref) = .ok (.node v) ∧ Leads v (keysOf text) s.document) ∨
      target s (refNode ref) (.str ref) = .error (.unresolved (.missing ref)) ∧
        ∀ v, ¬ Leads v (keysOf text) s.document := by
  simp only [target, hkey, resolve, maxHops, resolveWithin_succ (refOf?_refNode ref) hl]
  rcases walk_cases (keysOf text) s.document with ⟨v, hw, hv⟩ | ⟨hw, hno⟩ | ⟨-, hbad⟩
  · have hlead := (hv v).mpr rfl
    refine .inl ⟨v, ?_, hlead⟩
    rw [hw]
    dsimp only
    rw [resolveWithin_value (hend v hlead)]
    rfl
  · rw [hw]
    exact .inr ⟨rfl, hno⟩
  · exact absurd hlegible hbad

/-- A node that consists in a reference is lowered by way of it. -/
theorem lower_node (s : Setting) (site : Site) (ref : String) : ∃ depth,
    lower s site (refNode ref) =
      reference s site (lowerWithin s site depth) [(.str "$ref", .str ref)] (.str ref) :=
  ⟨_, rfl⟩

end Lowering

namespace Description

open Lowering

variable {document : Value} {c : Choices} {d : Description} {components : Mapping} {ref : String}
  {text : List Char}

/-- A reference to a component is missed when there is none of its key. -/
theorem misses_component (h : ofDocument document c = .ok d) (hc : d.components = .map components)
    {key : String} (hkey : componentKey? (.str ref) = some key) (site : Site) (depth : Nat) :
    ¬ Misses (reference d.setting site (lowerWithin d.setting site depth)
      [(.str "$ref", .str ref)] (.str ref)) ↔ (components.get? key).isSome := by
  have hnamed := (ofDocument_named h hc).component key
  rw [component?, hc] at hnamed
  rw [← hnamed, misses_reference, target, hkey]
  · dsimp only
    rcases d.setting.componentNames.lookup key with _ | name
    · simp
    · simp
  · intro v ht
    rw [target, hkey] at ht
    dsimp only at ht
    split at ht <;> cases ht

/-- Any other reference is missed when its keys lead nowhere. -/
theorem misses_local (h : ofDocument document c = .ok d)
    (hkey : componentKey? (.str ref) = none) (hl : local? ref = some text)
    (hlegible : Legible document (keysOf text))
    (hfree : ∀ v, Leads v (keysOf text) document → RefFree v) (site : Site) (depth : Nat) :
    ¬ Misses (reference d.setting site (lowerWithin d.setting site depth)
      [(.str "$ref", .str ref)] (.str ref)) ↔ ∃ v, Leads v (keysOf text) document := by
  obtain ⟨hdoc, -, -⟩ := ofDocument_spec h
  have hend : ∀ v, Leads v (keysOf text) d.setting.document → refOf? v = none := by
    intro v hv
    have hv := hfree v (hdoc ▸ hv)
    cases v with
    | map e => exact hv e .self
    | _ => rfl
  have htarget := target_local hkey hl (hdoc ▸ hlegible) hend
  rw [hdoc] at htarget
  rcases htarget with ⟨v, ht, hv⟩ | ⟨ht, hno⟩
  · refine iff_of_true (fun hmiss => ?_) ⟨v, hv⟩
    rw [misses_reference] at hmiss
    · obtain ⟨err, herr⟩ := hmiss
      cases ht.symm.trans herr
    · intro w hw
      cases ht.symm.trans hw
      exact not_misses_of_refFree depth (hfree v hv)
  · refine iff_of_false (fun hmet => hmet ?_) ?_
    · rw [misses_reference]
      · exact ⟨_, ht⟩
      · intro w hw
        cases ht.symm.trans hw
    · rintro ⟨v, hv⟩
      exact hno v hv

/-- **Main statement.** Lowering a reference meets none without a value exactly if its keys lead to
a value, unless it goes on below a component. One that begins like a reference to a component is
looked up as a whole: all that follows is one key. -/
theorem reference_exists (h : ofDocument document c = .ok d) (hc : d.components = .map components)
    (hl : local? ref = some text) (hlegible : Legible document (keysOf text))
    (hfree : ∀ v, Leads v (keysOf text) document → RefFree v) (site : Site) :
    ((∀ rest, ref.toList = componentStart ++ rest → '/' ∉ rest) →
      (¬ Misses (lower d.setting site (refNode ref)) ↔ ∃ v, Leads v (keysOf text) document)) ∧
    ∀ rest, ref.toList = componentStart ++ rest →
      (¬ Misses (lower d.setting site (refNode ref)) ↔
        (components.get? (String.ofList (keyOf rest))).isSome) := by
  obtain ⟨depth, hlower⟩ := lower_node d.setting site ref
  rw [hlower]
  rcases componentKey?_cases ref with ⟨rest, hrest, hkey⟩ | ⟨hother, hkey⟩
  · have hlookup := misses_component h hc hkey site depth
    refine ⟨fun hslash => ?_, fun rest' hrest' => ?_⟩
    · have htext : text = "components/schemas/".toList ++ rest := by
        rw [local?, hrest] at hl
        exact (Option.some.inj hl).symm
      rw [hlookup, ← leads_component h hc, htext, keysOf_component,
        keysOf_of_not_mem (hslash rest hrest)]
    · obtain rfl : rest' = rest := List.append_cancel_left (hrest'.symm.trans hrest)
      exact hlookup
  · exact ⟨fun _ => misses_local h hkey hl hlegible hfree site depth,
      fun rest hrest => absurd hrest (hother rest)⟩

/-! ### A reference to a component, one to a shared schema, and one below a component -/

/-- Components of which one has a property. -/
def toyNodes : Mapping :=
  [(.str "Toy", .map [
    (.str "properties", .map [(.str "name", .map [(.str "type", .str "string")])])])]

/-- A document with a component and, beside the components, a list of schemas. -/
def toyDocument : Value :=
  .map [(.str "openapi", .str "3.1.0"),
    (.str "x-shared", .list [.map [(.str "type", .str "null")]]),
    (.str "components", .map [(.str "schemas", .map toyNodes)])]

/-- The description in the document of the toys. -/
def toyDescription : Description where
  setting := { document := toyDocument, scalars := [], componentNames := [("Toy", "Toy")] }
  paths := []
  components := .map toyNodes

theorem refFree_toys : RefFree toyDocument := by
  simp [toyDocument, toyNodes, refFree_map, refFree_list, refFree_atom, Mapping.get?_cons]

theorem legible_toys {ts : List (List Char)}
    (h : ∀ token ∈ ts, token.all Text.isDigit → token = ['0']) : Legible toyDocument ts := by
  rintro pre token post items rfl - hd
  rw [h token (by simp) hd]
  refine ⟨fun c hc => ?_, by decide⟩
  rw [List.mem_singleton.mp hc]
  rfl

/-- The references to the component and to the shared schema lead to a value, the one to another
component does not. -/
theorem toyReference_exists : ofDocument toyDocument {} = .ok toyDescription ∧
    ¬ Misses (lower toyDescription.setting .operation (refNode "#/components/schemas/Toy")) ∧
    ¬ Misses (lower toyDescription.setting .operation (refNode "#/x-shared/0")) ∧
    Misses (lower toyDescription.setting .operation (refNode "#/components/schemas/Car")) := by
  have h : ofDocument toyDocument {} = .ok toyDescription := rfl
  have hfree : ∀ {ts} v, Leads v ts toyDocument → RefFree v := fun v hv =>
    refFree_toys.within hv.within
  have hToy := reference_exists h rfl
    (show local? "#/components/schemas/Toy" = some "components/schemas/Toy".toList from rfl)
    (legible_toys (by decide)) hfree .operation
  have hshared := reference_exists h rfl
    (show local? "#/x-shared/0" = some "x-shared/0".toList from rfl)
    (legible_toys (by decide)) hfree .operation
  have hCar := reference_exists h rfl
    (show local? "#/components/schemas/Car" = some "components/schemas/Car".toList from rfl)
    (legible_toys (by decide)) hfree .operation
  refine ⟨h, (hToy.2 "Toy".toList rfl).mpr rfl, (hshared.1 fun rest hrest => ?_).mpr ?_, ?_⟩
  · exact absurd (hrest ▸ List.prefix_append componentStart rest) (by decide)
  · exact ⟨_, .key rfl (.index rfl rfl .here)⟩
  · by_contra hmiss
    exact absurd ((hCar.2 "Car".toList rfl).mp hmiss) (by decide)

/-- **A reference below a component is missed although its keys lead to a value.** -/
theorem missed_below_component : ∃ document c d ref text v, ofDocument document c = .ok d ∧
    local? ref = some text ∧ Legible document (keysOf text) ∧
    Leads v (keysOf text) document ∧ RefFree v ∧
    Misses (lower d.setting .operation (refNode ref)) := by
  have hlead : Leads (.map [(.str "type", .str "string")])
      (keysOf "components/schemas/Toy/properties/name".toList) toyDocument :=
    .key rfl (.key rfl (.key rfl (.key rfl (.key rfl .here))))
  exact ⟨toyDocument, {}, toyDescription, "#/components/schemas/Toy/properties/name", _, _, rfl,
    rfl, legible_toys (by decide), hlead, refFree_toys.within hlead.within, .inl ⟨_, rfl⟩⟩

end Description

end OpenApi

end SchemaForge
