import SchemaForge.Proofs.GraphQL.Soundness

/-!
# One shape for an abstract type

A selection on a union or an interface has one shape, that of the abstract type itself, unless
`narrows` finds a condition on another type in it.

* `collect_depth`, `narrows_depth`: any depth above the number of the fragments that are not open
  will do.
* `applies_of_mem_possibleTypes`: a condition on a type applies to its possible types.
* `shape_keys`: the keys of a shape are those of the groups whose field the type has.
* **`groups_eq_of_not_narrows`**: without a condition on another type, the groups of the abstract
  type are those of each of its possible types.
-/

namespace SchemaForge.GraphQL

namespace Selection

variable {s : TypeSystem} {fs : List Fragment} {t p : NamedType} {inside : List String}

/-! ## Depths -/

/-- How many fragments are not open. -/
def unopened (fs : List Fragment) (inside : List String) : Nat :=
  (fs.filter fun f => !inside.contains f.name).length

theorem unopened_lt_length_add_one (fs : List Fragment) (inside : List String) :
    unopened fs inside < fs.length + 1 :=
  Nat.lt_succ_of_le (List.length_filter_le _ fs)

/-- A spread opens one more fragment. -/
theorem unopened_cons_lt {name : String} {f : Fragment} (hf : fragment? fs name = some f)
    (hopen : inside.contains name = false) : unopened fs (name :: inside) < unopened fs inside := by
  have hfilter : (fs.filter fun f => !(name :: inside).contains f.name) =
      (fs.filter fun f => !inside.contains f.name).filter fun f => f.name != name := by
    rw [List.filter_filter]
    refine List.filter_congr fun f _ => ?_
    rw [List.contains_cons, Bool.not_or]
    rfl
  rw [unopened, unopened, hfilter, List.length_filter_lt_length_iff_exists]
  have hname : f.name = name := name_eq_of_fragment? hf
  refine ⟨f, List.mem_filter.mpr ⟨List.mem_of_find?_eq_some hf, ?_⟩, ?_⟩
  · rw [hname, hopen]
    rfl
  · simp [hname]

/-- **Any depth above the number of the fragments that are not open** collects the same. -/
theorem collect_depth : ∀ {depth depth' : Nat} {inside : List String} (l : List Selection),
    unopened fs inside < depth → unopened fs inside < depth' →
      collect s fs t depth inside l = collect s fs t depth' inside l
  | 0, _, _, _, h, _ => absurd h (Nat.not_lt_zero _)
  | _ + 1, 0, _, _, _, h => absurd h (Nat.not_lt_zero _)
  | depth + 1, depth' + 1, inside, l, h, h' => by
    rw [collect, collect]
    congr 1
    funext name
    rcases hf : fragment? fs name with _ | f
    · rfl
    · rcases hopen : inside.contains name with _ | _
      · have hlt := unopened_cons_lt hf hopen
        have hsame : collect s fs t depth (name :: inside) f.selections =
            collect s fs t depth' (name :: inside) f.selections :=
          collect_depth f.selections (by omega) (by omega)
        dsimp only
        rw [hsame]
      · rfl

/-- **Any such depth** finds the same conditions. -/
theorem narrows_depth {parent : String} : ∀ {depth depth' : Nat} {inside : List String}
    (l : List Selection), unopened fs inside < depth → unopened fs inside < depth' →
      narrows fs parent depth inside l = narrows fs parent depth' inside l
  | 0, _, _, _, h, _ => absurd h (Nat.not_lt_zero _)
  | _ + 1, 0, _, _, _, h => absurd h (Nat.not_lt_zero _)
  | depth + 1, depth' + 1, inside, l, h, h' => by
    rw [narrows, narrows]
    congr 1
    funext name
    rcases hf : fragment? fs name with _ | f
    · rfl
    · rcases hopen : inside.contains name with _ | _
      · have hlt := unopened_cons_lt hf hopen
        have hsame : narrows fs parent depth (name :: inside) f.selections =
            narrows fs parent depth' (name :: inside) f.selections :=
          narrows_depth f.selections (by omega) (by omega)
        dsimp only
        rw [hsame]
      · rfl

/-! ## Possible types -/

theorem name_mem_of_mem_filterMap {names : List String} (h : t ∈ names.filterMap s.find?) :
    t.name ∈ names := by
  obtain ⟨name, hname, hfind⟩ := List.mem_filterMap.mp h
  rwa [TypeSystem.name_of_find? hfind]

theorem allows_of_mem_possibleTypes (h : t ∈ s.possibleTypes p) : TypeSystem.allows p t = true := by
  unfold TypeSystem.possibleTypes at h
  unfold TypeSystem.allows
  split at h
  · exact List.elem_eq_true_of_mem (name_mem_of_mem_filterMap h)
  · obtain ⟨o, -, ho⟩ := List.mem_flatMap.mp h
    obtain ⟨hcount, rfl⟩ := List.mem_replicate.mp ho
    exact List.elem_eq_true_of_mem (List.count_pos_iff.mp (Nat.pos_of_ne_zero hcount))
  all_goals cases h

/-- **A condition on a type applies to its possible types.** -/
theorem applies_of_mem_possibleTypes (hp : s.find? p.name = some p) (ht : t ∈ s.possibleTypes p)
    (hobj : t.isObject = true) : applies s t p.name = true := by
  have hallows := allows_of_mem_possibleTypes ht
  rw [applies, hp]
  dsimp only
  rw [isAbstract_of_allows hallows, hobj, hallows, Bool.and_self, Bool.and_self, Bool.or_true]

end Selection

/-! ## Keys -/

/-- Whether a type has the field of a group. Every type has the field that tells its name. -/
def Group.isKnown (t : NamedType) (g : Group) : Bool :=
  g.first.name == "__typename" || (t.field? g.first.name).isSome

/-- The keys of the properties of an object. -/
def objectKeys : Schema → List Atom
  | .object properties _ _ => properties.map (·.1)
  | _ => []

namespace Lowering

open Selection

variable {c : Setting} {place : Place} {inside : List String}
  {nested : NamedType → List Selection → Lower Schema} {t p : NamedType} {l : List Selection}

theorem property_key {g : Group} {p : Option (Atom × Property Schema)}
    (h : (property c place nested t g).outcome = .ok p) :
    p.map (·.1) = if g.isKnown t then some (.str g.key) else none := by
  rw [Group.isKnown]
  by_cases hname : g.first.name = "__typename"
  · rw [property_typeName hname] at h
    cases h
    rw [hname]
    rfl
  · rcases hf : t.field? g.first.name with _ | f
    · rw [property_unknown hname hf] at h
      cases h
      simp [hname]
    · rw [property_field hname hf] at h
      obtain ⟨m, -, h⟩ := Logged.outcome_bind_eq_ok.mp h
      cases h
      simp

/-- **The keys of a shape** are those of the groups whose field the type has, in their order. -/
theorem shape_keys {x : Schema} (h : (shape c place inside nested t l).outcome = .ok x) :
    objectKeys x = ((groupsOf c inside t l).filter (Group.isKnown t)).map (.str ·.key) := by
  obtain ⟨ps, hps, rfl⟩ := shape_eq_ok.mp h
  clear h
  rw [objectKeys]
  -- group by group: what is kept of one is its property, under the key of the group
  generalize groupsOf c inside t l = groups at hps ⊢
  induction hps with
  | nil => rfl
  | @cons g p groups ps hp _ ih =>
    have hkey := property_key hp
    rw [List.filter_cons]
    cases p with
    | none =>
      have hno : g.isKnown t = false := by
        by_contra hyes
        rw [if_pos (by simpa using hyes)] at hkey
        cases hkey
      rw [hno, List.filterMap_cons_none rfl, ih]
      rfl
    | some p =>
      have hyes : g.isKnown t = true := by
        by_contra hno
        rw [if_neg hno] at hkey
        cases hkey
      rw [if_pos hyes] at hkey ⊢
      have hfirst : p.1 = .str g.key := Option.some.inj hkey
      change p.1 :: (ps.filterMap id).map (·.1) = _
      rw [hfirst, ih, List.map_cons]

/-- **Main statement.** Where a selection on an abstract type has no condition on another type, each
possible type has the same fields under the same keys as the abstract type, in the same order,
however deep spreads are nested; and the same fragments are missing. So the one shape has a key for
each group whose field the abstract type has, and the shape of a possible type has one for each of
the same groups whose field this type has. -/
theorem groups_eq_of_not_narrows (hp : c.system.find? p.name = some p)
    (ht : t ∈ c.system.possibleTypes p) (hobj : t.isObject = true)
    (h : narrows c.fragments p.name c.spreadBound inside l = false) :
    (∀ depth, c.spreadBound ≤ depth → narrows c.fragments p.name depth inside l = false ∧
      group (collect c.system c.fragments t depth inside l) =
          group (collect c.system c.fragments p depth inside l) ∧
        missing (collect c.system c.fragments t depth inside l) =
          missing (collect c.system c.fragments p depth inside l)) ∧
    ∀ place nested x y, (shape c place inside nested p l).outcome = .ok x →
      (shape c place inside nested t l).outcome = .ok y →
      objectKeys x = ((groupsOf c inside p l).filter (Group.isKnown p)).map (.str ·.key) ∧
        objectKeys y = ((groupsOf c inside p l).filter (Group.isKnown t)).map (.str ·.key) := by
  have hself : applies c.system p p.name = true := by rw [applies, beq_self_eq_true, Bool.true_or]
  have hsame : collect c.system c.fragments t c.spreadBound inside l =
      collect c.system c.fragments p c.spreadBound inside l :=
    collect_eq_of_narrows (applies_of_mem_possibleTypes hp ht hobj) hself _ _ _ h
  refine ⟨fun depth hdepth => ?_, fun place nested x y hx hy => ⟨shape_keys hx, ?_⟩⟩
  · have hbound := unopened_lt_length_add_one c.fragments inside
    have hdeep : ∀ u, collect c.system c.fragments u depth inside l =
        collect c.system c.fragments u c.spreadBound inside l := fun u =>
      collect_depth l (Nat.lt_of_lt_of_le hbound hdepth) hbound
    have hnarrows : narrows c.fragments p.name depth inside l = false :=
      (narrows_depth l (Nat.lt_of_lt_of_le hbound hdepth) hbound).trans h
    rw [hdeep t, hdeep p, hsame]
    exact ⟨hnarrows, rfl, rfl⟩
  · rw [shape_keys hy, groupsOf, groupsOf, hsame]

/-- A selection on pets that nests a spread, an inline fragment without a condition and a fragment
that does not exist, and asks for the name of a pet under two keys. -/
def nestedSelections : List Selection := [
  .field none "__typename" [] [] [], .spread "Named" [],
  .inline none [] [.spread "Named" [], .spread "Lost" [],
    .inline (some "Pet") [] [.field (some "called") "name" [] [] []]]]

/-- It asks of dogs what it asks of pets. -/
theorem nestedSelections_of_dogs :
    narrows petSetting.fragments "Pet" petSetting.spreadBound [] nestedSelections = false ∧
      (groupsOf petSetting [] petSystem.types[2] nestedSelections).map (·.key) =
        ["__typename", "name", "called"] ∧
      groupsOf petSetting [] petSystem.types[2] nestedSelections =
        groupsOf petSetting [] petSystem.types[1] nestedSelections := by
  have hnarrows : narrows petSetting.fragments "Pet" petSetting.spreadBound [] nestedSelections =
      false := by decide
  have hdog : petSystem.types[2] ∈ petSetting.system.possibleTypes petSystem.types[1] :=
    List.mem_singleton_self _
  obtain ⟨hgroups, -⟩ :=
    groups_eq_of_not_narrows (c := petSetting) (p := petSystem.types[1]) rfl hdog rfl hnarrows
  exact ⟨hnarrows, by decide, (hgroups petSetting.spreadBound (Nat.le_refl _)).2.1⟩

end Lowering

end SchemaForge.GraphQL
