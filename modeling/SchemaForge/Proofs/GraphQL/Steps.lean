import SchemaForge.Proofs.GraphQL.Collection
import SchemaForge.Proofs.Logged

/-!
# Steps of lowering

What each step of lowering a selection ends with.

* `property_typeName`, `property_unknown`, `property_field`: the three kinds of a group.
* `shape_eq_ok`: the schema of an object has the properties of its groups.
* `selectionWithin_eq_error`: only a selection without end stops it.
-/

namespace SchemaForge.GraphQL.Lowering

open Selection

variable {c : Setting} {place : Place} {inside : List String}
  {nested : NamedType → List Selection → Lower Schema} {t : NamedType} {l : List Selection}

/-! ## Types -/

/-- The schema of what is selected at a named type. -/
abbrev part (c : Setting) (nested : NamedType → List Selection → Lower Schema)
    (l : List Selection) (named : NamedType) : Lower Schema := do
  if named.kind == .scalar then scalar c.scalars named.name
  else if named.kind == .enum then return .ref named.name .null
  else
    Logged.note (.reach named.name)
    nested named l

theorem scalar_ok (scalars : Scalar.Registry) (name : String) :
    (scalar scalars name).outcome = .ok ((scalars.schema? name).getD .unknown) := by
  rw [scalar]
  rcases scalars.schema? name with _ | schema <;> rfl

theorem part_scalar (h : t.kind = .scalar) :
    (part c nested l t).outcome = .ok ((c.scalars.schema? t.name).getD .unknown) := by
  rw [part, if_pos (by rw [h]; rfl), scalar_ok]

theorem part_enum (h : t.kind = .enum) :
    (part c nested l t).outcome = .ok (.ref t.name .null) := by
  rw [part, if_neg (by rw [h]; decide), if_pos (by rw [h]; rfl)]
  rfl

theorem part_nested (hs : t.kind ≠ .scalar) (he : t.kind ≠ .enum) :
    (part c nested l t).outcome = (nested t l).outcome := by
  rw [part, if_neg (by simpa using hs), if_neg (by simpa using he)]
  exact Logged.outcome_bind (Logged.outcome_note _) _

/-- Lowering a wrapped type stops only where lowering a named type does. -/
theorem wrapped_eq_error {s : TypeSystem} {build : NamedType → Lower Schema} {e : Fault} :
    ∀ {r : TypeRef}, (wrapped s build r).outcome = .error e → ∃ t, (build t).outcome = .error e
  | .nonNull r, h => by
    rw [wrapped] at h
    rcases Logged.outcome_bind_eq_error h with h | ⟨m, -, h⟩
    · exact wrapped_eq_error h
    · cases h
  | .list r, h => by
    rw [wrapped] at h
    rcases Logged.outcome_bind_eq_error h with h | ⟨m, -, h⟩
    · exact wrapped_eq_error h
    · cases h
  | .named name, h => by
    rw [wrapped] at h
    rcases hfind : s.find? name with _ | t <;> rw [hfind] at h
    · cases h
    · rcases Logged.outcome_bind_eq_error h with h | ⟨x, -, h⟩
      · exact ⟨t, h⟩
      · cases h

theorem wrapped_ok {s : TypeSystem} {build : NamedType → Lower Schema}
    (h : ∀ t, ∃ x, (build t).outcome = .ok x) (r : TypeRef) :
    ∃ m, (wrapped s build r).outcome = .ok m := by
  refine Logged.outcome_ok_of_not_error fun e he => ?_
  obtain ⟨t, ht⟩ := wrapped_eq_error he
  obtain ⟨x, hx⟩ := h t
  rw [hx] at ht
  cases ht

/-! ## Properties -/

theorem property_typeName {g : Group} (h : g.first.name = "__typename") :
    (property c place nested t g).outcome =
      .ok (some (.str g.key, ({ schema := typeName t } : Modified).toProperty .null)) := by
  rw [property, if_pos (by rw [h]; rfl), Logged.outcome_pure]

theorem property_unknown {g : Group} (h : g.first.name ≠ "__typename")
    (hf : t.field? g.first.name = none) :
    (property c place nested t g).outcome = .ok none := by
  rw [property, if_neg (by simpa using h), hf]
  exact Logged.outcome_bind (Logged.outcome_note _) _

theorem property_field {g : Group} {f : Field} (h : g.first.name ≠ "__typename")
    (hf : t.field? g.first.name = some f) :
    property c place nested t g = do
      let m ← wrapped c.system (part c nested g.selections) f.type
      let m : Modified := { m with optional := g.isConditional }
      return some (.str g.key, m.toProperty f.description) := by
  rw [property, if_neg (by simpa using h), hf]

/-- Lowering a group stops only where lowering what is selected below it does. -/
theorem property_eq_error {g : Group} {e : Fault}
    (h : (property c place nested t g).outcome = .error e) :
    ∃ named, (nested named g.selections).outcome = .error e := by
  by_cases hname : g.first.name = "__typename"
  · rw [property_typeName hname] at h
    cases h
  · rcases hf : t.field? g.first.name with _ | f
    · rw [property_unknown hname hf] at h
      cases h
    · rw [property_field hname hf] at h
      rcases Logged.outcome_bind_eq_error h with h | ⟨m, -, h⟩
      · obtain ⟨named, h⟩ := wrapped_eq_error h
        by_cases hs : named.kind = .scalar
        · rw [part_scalar hs] at h
          cases h
        · by_cases he : named.kind = .enum
          · rw [part_enum he] at h
            cases h
          · rw [part_nested hs he] at h
            exact ⟨named, h⟩
      · cases h

/-! ## Objects -/

/-- The groups of a selection on a type. -/
abbrev groupsOf (c : Setting) (inside : List String) (t : NamedType) (l : List Selection) :
    List Group :=
  group (collect c.system c.fragments t c.spreadBound inside l)

theorem forM_note_ok (names : List String) (f : String → Event) :
    (names.forM fun name => (Logged.note (f name) : Lower Unit)).outcome = .ok () := by
  induction names with
  | nil => rfl
  | cons name names ih =>
    rw [List.forM_eq_forM, List.forM_cons, Logged.outcome_bind (Logged.outcome_note _)]
    exact ih

theorem shape_eq_error {e : Fault} (h : (shape c place inside nested t l).outcome = .error e) :
    ∃ g ∈ groupsOf c inside t l, ∃ named, (nested named g.selections).outcome = .error e := by
  rw [shape, Logged.outcome_bind (forM_note_ok _ _)] at h
  rcases Logged.outcome_bind_eq_error h with h | ⟨ps, -, h⟩
  · obtain ⟨g, hg, h⟩ := Logged.outcome_mapM_eq_error h
    exact ⟨g, hg, property_eq_error h⟩
  · cases h

theorem shape_eq_ok {x : Schema} : (shape c place inside nested t l).outcome = .ok x ↔
    ∃ ps, List.Forall₂ (fun g p => (property c place nested t g).outcome = .ok p)
      (groupsOf c inside t l) ps ∧ x = .object (ps.filterMap id) .unset .null := by
  rw [shape, Logged.outcome_bind (forM_note_ok _ _), Logged.outcome_bind_eq_ok]
  refine exists_congr fun ps => ?_
  rw [Logged.outcome_mapM_eq_ok, Logged.outcome_pure]
  exact and_congr_right fun _ => ⟨fun h => (Except.ok.inj h).symm, fun h => by rw [h]⟩

/-! ## Selections -/

theorem selectionWithin_shape {depth : Nat}
    (h : (t.isAbstract && narrows c.fragments t.name c.spreadBound inside l) = false) :
    selectionWithin c place inside (depth + 1) t l =
      shape c place inside (selectionWithin c place inside depth) t l := by
  rw [selectionWithin, h]
  rfl

/-- A selection with conditions on other types has a schema for each possible type. -/
theorem selectionWithin_members {depth : Nat} {x : Schema}
    (h : (t.isAbstract && narrows c.fragments t.name c.spreadBound inside l) = true)
    (hx : (selectionWithin c place inside (depth + 1) t l).outcome = .ok x) :
    ∃ xs, List.Forall₂ (fun r y =>
        (shape c place inside (selectionWithin c place inside depth) r l).outcome = .ok y)
      (c.system.possibleTypes t) xs ∧ (xs = [x] ∨ x = .union xs .null) := by
  rw [selectionWithin, if_pos h, Logged.outcome_bind_eq_ok] at hx
  obtain ⟨xs, hxs, hx⟩ := hx
  refine ⟨xs, Logged.outcome_mapM_eq_ok.mp hxs, ?_⟩
  split at hx
  · exact .inl (by rw [Except.ok.inj hx])
  · exact .inr (Except.ok.inj hx).symm

/-- Lowering a selection stops only where lowering what is selected below one of its fields does. -/
theorem selectionWithin_succ_eq_error {depth : Nat} {e : Fault}
    (h : (selectionWithin c place inside (depth + 1) t l).outcome = .error e) :
    ∃ r, ∃ g ∈ groupsOf c inside r l, ∃ named,
      (selectionWithin c place inside depth named g.selections).outcome = .error e := by
  by_cases hmany : (t.isAbstract && narrows c.fragments t.name c.spreadBound inside l) = true
  · rw [selectionWithin, if_pos hmany] at h
    rcases Logged.outcome_bind_eq_error h with h | ⟨xs, -, h⟩
    · obtain ⟨r, -, h⟩ := Logged.outcome_mapM_eq_error h
      exact ⟨r, shape_eq_error h⟩
    · split at h <;> cases h
  · rw [selectionWithin_shape (Bool.eq_false_iff.mpr hmany)] at h
    exact ⟨t, shape_eq_error h⟩

/-- **Lowering a selection stops only where it does not end.** -/
theorem selectionWithin_eq_error {e : Fault} : ∀ {depth : Nat} {t : NamedType} {l : List Selection},
    (selectionWithin c place inside depth t l).outcome = .error e → e = .endless
  | 0, _, _, h => (Except.error.inj h).symm
  | _ + 1, _, _, h => by
    obtain ⟨_, _, _, _, h⟩ := selectionWithin_succ_eq_error h
    exact selectionWithin_eq_error h

/-- The uses in a group have been found in the selection. -/
theorem mem_uses (ha : Acyclic c.fragments) (hin : Apart c.fragments inside l) {g : Group}
    (hg : g ∈ groupsOf c inside t l) {use : Use} (huse : use ∈ g.uses) :
    ∃ a ∈ found c.system c.fragments t l, a.key = g.key ∧ a.use = use := by
  rw [(groups_group _).uses g hg, Setting.spreadBound, collect_eq_found ha hin] at huse
  obtain ⟨x, hx, rfl⟩ := List.mem_map.mp huse
  obtain ⟨hx, hkey⟩ := List.mem_filter.mp hx
  obtain ⟨a, hfound, rfl⟩ := List.mem_map.mp hx
  exact ⟨a, hfound, beq_iff_eq.mp hkey, rfl⟩

/-- What is selected below a field has been found in the selection of the field. -/
theorem mem_selections (ha : Acyclic c.fragments) (hin : Apart c.fragments inside l) {g : Group}
    (hg : g ∈ groupsOf c inside t l) {y : Selection} (hy : y ∈ g.selections) :
    ∃ a ∈ found c.system c.fragments t l, a.key = g.key ∧ y ∈ a.use.selections := by
  obtain ⟨use, huse, hy⟩ := List.mem_flatMap.mp hy
  obtain ⟨a, hfound, hkey, rfl⟩ := mem_uses ha hin hg huse
  exact ⟨a, hfound, hkey, hy⟩

/-- The fragments that are open stay closed below a field. -/
theorem apart_selections (ha : Acyclic c.fragments) (hin : Apart c.fragments inside l) {g : Group}
    (hg : g ∈ groupsOf c inside t l) : Apart c.fragments inside g.selections := by
  intro m hm n hn hnm
  obtain ⟨y, hy, hn⟩ := mem_spreadsOfAll.mp hn
  obtain ⟨a, hfound, -, hy⟩ := mem_selections ha hin hg hy
  obtain ⟨x, hx, h⟩ := found_spreads l a hfound
  obtain ⟨k, hk, hkn⟩ := h n (spreads_subset hy hn)
  exact hin m hm k (spreads_subset hx hk) (hkn.trans hnm)

end SchemaForge.GraphQL.Lowering
