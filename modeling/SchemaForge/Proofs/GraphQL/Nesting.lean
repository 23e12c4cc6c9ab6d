import SchemaForge.Proofs.GraphQL.Steps

/-!
# Fragments that nest without end

A fragment that spreads itself next to its fields is not opened inside itself. One that spreads
itself below a field would be opened at each field again, and lowering it would not end.

* `Grounded`: no fragment leads back to itself through a spread below a field.
* `Yields`: the fields that a selection holds, in itself and in the fragments that it spreads.
* **`selection_grounded`**: then lowering a selection ends with a schema.
-/

namespace SchemaForge.GraphQL

namespace Selection

mutual

/-- The fragments that are spread below the fields of a selection. -/
def nested : Selection → List String
  | .field _ _ _ _ selections => spreadsOfAll selections
  | .spread .. => []
  | .inline _ _ selections => nestedOfAll selections

/-- The fragments that are spread below the fields of selections. -/
def nestedOfAll : List Selection → List String
  | [] => []
  | s :: rest => nested s ++ nestedOfAll rest

end

theorem nested_subset_all {s : Selection} {l : List Selection} (h : s ∈ l) :
    s.nested ⊆ nestedOfAll l := by
  induction l with
  | nil => cases h
  | cons x l ih =>
    rw [nestedOfAll]
    rcases List.mem_cons.mp h with rfl | h
    · exact List.subset_append_left _ _
    · exact List.Subset.trans (ih h) (List.subset_append_right _ _)

mutual

theorem mem_spreads_of_nested {n : String} : ∀ s : Selection, n ∈ s.nested → n ∈ s.spreads
  | .field .., h => by
    rw [nested] at h
    rwa [spreads]
  | .spread .., h => by
    rw [nested] at h
    cases h
  | .inline _ _ l, h => by
    rw [nested] at h
    rw [spreads]
    exact mem_spreadsOfAll_of_nested l h

theorem mem_spreadsOfAll_of_nested {n : String} : ∀ l : List Selection,
    n ∈ nestedOfAll l → n ∈ spreadsOfAll l
  | [], h => by
    rw [nestedOfAll] at h
    cases h
  | s :: l, h => by
    rw [nestedOfAll] at h
    rw [spreadsOfAll]
    exact (List.mem_append.mp h).elim
      (fun h => List.mem_append_left _ (mem_spreads_of_nested s h))
      (fun h => List.mem_append_right _ (mem_spreadsOfAll_of_nested l h))

end

end Selection

open Selection Lowering Relation

variable {fs : List Fragment} {s : TypeSystem} {t : NamedType}

/-- No fragment leads back to itself through a spread below a field. -/
def Grounded (fs : List Fragment) : Prop :=
  ∀ name f, fragment? fs name = some f → ∀ n ∈ nestedOfAll f.selections,
    ¬ ReflTransGen (Spreads fs) n name

theorem Acyclic.grounded (h : Acyclic fs) : Grounded fs := by
  intro name f hf n hn hback
  exact h name (.head' ⟨f, hf, mem_spreadsOfAll_of_nested _ hn⟩ hback)

/-! ## Fields in selections -/

/-- A selection holds the use of a field, in itself or in a fragment that it spreads. -/
inductive Yields (fs : List Fragment) : Selection → Use → Prop
  | field {label : Option String} {name : String} {arguments : List (String × Literal)}
    {directives : List Directive} {selections : List Selection} :
    Yields fs (.field label name arguments directives selections) { name, directives, selections }
  | inline {condition : Option String} {directives : List Directive} {l : List Selection}
    {x : Selection} {u : Use} : x ∈ l → Yields fs x u → Yields fs (.inline condition directives l) u
  | spread {name : String} {directives : List Directive} {f : Fragment} {x : Selection} {u : Use} :
    fragment? fs name = some f → x ∈ f.selections → Yields fs x u →
    Yields fs (.spread name directives) u

namespace Yields

mutual

theorem of_collectOne {spread : String → List Collected} {accepts : String → Bool} {key : String}
    {u : Use} (hspread : ∀ name ds, .field key u ∈ spread name → Yields fs (.spread name ds) u) :
    ∀ x : Selection, .field key u ∈ collectOne spread accepts x → Yields fs x u
  | .field .., h => by
    rw [collectOne, List.mem_singleton] at h
    injection h with _ hu
    rw [hu]
    exact .field
  | .spread name ds, h => by
    rw [collectOne] at h
    exact hspread name ds h
  | .inline none ds l, h => by
    rw [collectOne] at h
    obtain ⟨x, hx, hu⟩ := of_collectWith hspread l h
    exact .inline hx hu
  | .inline (some condition) ds l, h => by
    rw [collectOne] at h
    split at h
    · obtain ⟨x, hx, hu⟩ := of_collectWith hspread l h
      exact .inline hx hu
    · cases h

theorem of_collectWith {spread : String → List Collected} {accepts : String → Bool} {key : String}
    {u : Use} (hspread : ∀ name ds, .field key u ∈ spread name → Yields fs (.spread name ds) u) :
    ∀ l : List Selection, .field key u ∈ collectWith spread accepts l → ∃ x ∈ l, Yields fs x u
  | [], h => by
    rw [collectWith] at h
    cases h
  | x :: l, h => by
    rw [collectWith] at h
    rcases List.mem_append.mp h with h | h
    · exact ⟨x, List.mem_cons_self, of_collectOne hspread x h⟩
    · obtain ⟨y, hy, hu⟩ := of_collectWith hspread l h
      exact ⟨y, List.mem_cons_of_mem _ hy, hu⟩

end

/-- **What is collected from selections is held by one of them.** -/
theorem of_collect {key : String} {u : Use} : ∀ (depth : Nat) (inside : List String)
    (l : List Selection), .field key u ∈ collect s fs t depth inside l → ∃ x ∈ l, Yields fs x u
  | 0, inside, l, h => by
    rw [collect] at h
    exact of_collectWith (fun _ _ h => by cases h) l h
  | depth + 1, inside, l, h => by
    rw [collect] at h
    refine of_collectWith (fun name ds h => ?_) l h
    rcases hf : fragment? fs name with _ | f
    · rw [hf, List.mem_singleton] at h
      cases h
    · rw [hf] at h
      dsimp only at h
      split at h
      · cases h
      · split at h
        · obtain ⟨x, hx, hu⟩ := of_collect depth (name :: inside) f.selections h
          exact .spread hf hx hu
        · cases h

/-- A use stands in the selection that holds it, or in a fragment that is opened there. -/
theorem source {x : Selection} {u : Use} (h : Yields fs x u) :
    (fieldCountOfAll u.selections < x.fieldCount ∧ spreadsOfAll u.selections ⊆ x.nested) ∨
      ∃ m f k, fragment? fs m = some f ∧ k ∈ x.spreads ∧ ReflTransGen (Spreads fs) k m ∧
        fieldCountOfAll u.selections < fieldCountOfAll f.selections ∧
        spreadsOfAll u.selections ⊆ nestedOfAll f.selections := by
  induction h with
  | field =>
    left
    rw [fieldCount, nested]
    exact ⟨Nat.lt_add_of_pos_left Nat.one_pos, List.Subset.refl _⟩
  | inline hx _ ih =>
    rcases ih with ⟨hcount, hnested⟩ | ⟨m, f, k, hf, hk, hkm, hbelow⟩
    · left
      rw [fieldCount, nested]
      have hle := fieldCount_le hx
      exact ⟨by omega, List.Subset.trans hnested (nested_subset_all hx)⟩
    · right
      rw [spreads]
      exact ⟨m, f, k, hf, spreads_subset hx hk, hkm, hbelow⟩
  | @spread name _ f _ _ hf hx _ ih =>
    right
    rcases ih with ⟨hcount, hnested⟩ | ⟨m, f', k, hf', hk, hkm, hbelow⟩
    · have hle := fieldCount_le hx
      exact ⟨name, f, name, hf, by simp [spreads], .refl, by omega,
        List.Subset.trans hnested (nested_subset_all hx)⟩
    · have hstep : Spreads fs name k := ⟨f, hf, spreads_subset hx hk⟩
      exact ⟨m, f', name, hf', by simp [spreads], .head hstep hkm, hbelow⟩

/-- **A field is lighter below than the selection that holds it.** Where it stands in a fragment, that
fragment is not opened again below the field. -/
theorem weight_lt (hg : Grounded fs) {x y : Selection} {u : Use} (h : Yields fs x u)
    (hy : y ∈ u.selections) : weight fs y < weight fs x := by
  have hcount := fieldCount_le hy
  rcases h.source with ⟨hlt, hnested⟩ | ⟨m, f, k, hf, hk, hkm, hlt, hnested⟩
  · have hspreads : y.spreads ⊆ x.spreads := fun n hn =>
      mem_spreads_of_nested x (hnested (spreads_subset hy hn))
    have hle : weight fs y + x.fieldCount ≤ weight fs x + y.fieldCount :=
      weight_le_of_subset hspreads
    omega
  · have hmem : m ∈ opened fs x := mem_opened.mpr ⟨name_mem_of_fragment? hf, k, hk, hkm⟩
    -- `m` holds the field, so it is opened for `x`; below the field it would lead back to itself
    have hsub : opened fs y ⊆ (opened fs x).erase m := by
      intro p hp
      obtain ⟨hp, j, hj, hjp⟩ := mem_opened.mp hp
      have hjn : j ∈ nestedOfAll f.selections := hnested (spreads_subset hy hj)
      have hmj : Spreads fs m j := ⟨f, hf, mem_spreadsOfAll_of_nested _ hjn⟩
      refine Finset.mem_erase.mpr ⟨?_, mem_opened.mpr ⟨hp, k, hk, hkm.trans (.head hmj hjp)⟩⟩
      rintro rfl
      exact hg p f hf j hjn hjp
    have hsum : ∑ p ∈ opened fs y, fieldsOf fs p ≤ ∑ p ∈ (opened fs x).erase m, fieldsOf fs p :=
      Finset.sum_le_sum_of_subset hsub
    have herase := Finset.add_sum_erase _ (fieldsOf fs) hmem
    have hfields : fieldsOf fs m = fieldCountOfAll f.selections := by
      rw [fieldsOf, hf]
      rfl
    unfold weight
    omega

theorem weight_pos {x : Selection} {u : Use} (h : Yields fs x u) : 0 < weight fs x := by
  rcases h.source with ⟨hlt, -⟩ | ⟨m, f, k, hf, hk, hkm, hlt, -⟩
  · unfold weight
    omega
  · have hmem : m ∈ opened fs x := mem_opened.mpr ⟨name_mem_of_fragment? hf, k, hk, hkm⟩
    have hle : fieldsOf fs m ≤ ∑ p ∈ opened fs x, fieldsOf fs p :=
      Finset.single_le_sum (fun _ _ => Nat.zero_le _) hmem
    have hfields : fieldsOf fs m = fieldCountOfAll f.selections := by
      rw [fieldsOf, hf]
      rfl
    unfold weight
    omega

end Yields

/-! ## Lowering ends -/

variable {c : Setting} {inside : List String} {l : List Selection} {g : Group}

/-- The uses in a group are held by the selections that are grouped. -/
theorem yields_of_mem_uses (hg : g ∈ groupsOf c inside t l) {u : Use} (hu : u ∈ g.uses) :
    ∃ x ∈ l, Yields c.fragments x u := by
  rw [(groups_group _).uses g hg] at hu
  obtain ⟨⟨key, u⟩, hx, rfl⟩ := List.mem_map.mp hu
  obtain ⟨found, hfound, hfield⟩ := List.mem_filterMap.mp (List.mem_filter.mp hx).1
  rcases found with ⟨key', u'⟩ | _
  · cases hfield
    exact Yields.of_collect _ inside l hfound
  · cases hfield

/-- **Below a field the selections are lighter.** -/
theorem Grounded.lighter (h : Grounded c.fragments) {depth : Nat}
    (hw : ∀ x ∈ l, weight c.fragments x < depth + 1) (hg : g ∈ groupsOf c inside t l) :
    0 < depth ∧ ∀ y ∈ g.selections, weight c.fragments y < depth := by
  constructor
  · obtain ⟨x, hx, hu⟩ := yields_of_mem_uses hg (List.mem_cons_self : g.first ∈ g.uses)
    have hpos := hu.weight_pos
    have hlt := hw x hx
    omega
  · intro y hy
    obtain ⟨u, hu, hy⟩ := List.mem_flatMap.mp hy
    obtain ⟨x, hx, hu⟩ := yields_of_mem_uses hg hu
    have hlt : weight c.fragments y < weight c.fragments x := hu.weight_lt h hy
    have := hw x hx
    omega

/-- Lowering a selection ends with a schema at a depth above all that is selected weighs. -/
theorem selectionWithin_grounded (h : Grounded c.fragments) {place : Place} {depth : Nat}
    (t : NamedType) {l : List Selection} (hpos : 0 < depth)
    (hw : ∀ x ∈ l, weight c.fragments x < depth) :
    ∃ x, (selectionWithin c place inside depth t l).outcome = .ok x := by
  refine Logged.outcome_ok_of_not_error fun e he => ?_
  induction depth generalizing t l with
  | zero => exact Nat.lt_irrefl 0 hpos
  | succ depth ih =>
    obtain ⟨r, g, hg, named, he⟩ := selectionWithin_succ_eq_error he
    obtain ⟨hpos, hbelow⟩ := h.lighter hw hg
    exact ih named hpos hbelow he

/-- At some depth the shape of a type ends with a schema. -/
theorem shape_grounded (h : Grounded c.fragments) (place : Place) (inside : List String)
    (t : NamedType) (l : List Selection) : ∃ depth x,
      (shape c place inside (selectionWithin c place inside depth) t l).outcome = .ok x := by
  refine ⟨fieldCountOfAll l + (c.fragments.map fun f => fieldCountOfAll f.selections).sum,
    Logged.outcome_ok_of_not_error fun e he => ?_⟩
  obtain ⟨g, hg, named, he⟩ := shape_eq_error he
  obtain ⟨hpos, hbelow⟩ := h.lighter (fun x hx => Nat.lt_succ_of_le (weight_le hx)) hg
  obtain ⟨x, hx⟩ : ∃ x, (selectionWithin c place inside _ named g.selections).outcome = .ok x :=
    selectionWithin_grounded h named hpos hbelow
  rw [hx] at he
  cases he

theorem foldl_fieldCount (fs : List Fragment) : ∀ n, fs.foldl (fun n f => n +
    fieldCountOfAll f.selections) n = n + (fs.map fun f => fieldCountOfAll f.selections).sum := by
  induction fs with
  | nil => exact fun n => rfl
  | cons f fs ih =>
    intro n
    rw [List.foldl_cons, ih, List.map_cons, List.sum_cons, Nat.add_assoc]

/-- No selection is too heavy for its bound. -/
theorem weight_lt_depthBound {x : Selection} (hx : x ∈ l) :
    weight c.fragments x < depthBound c l := by
  have hw : weight c.fragments x ≤ fieldCountOfAll l + (c.fragments.map fun f =>
      fieldCountOfAll f.selections).sum := weight_le hx
  have hle : fieldCountOfAll l + 1 + (c.fragments.map fun f =>
      fieldCountOfAll f.selections).sum ≤ depthBound c l := by
    rw [depthBound, foldl_fieldCount]
    exact Nat.le_mul_of_pos_right _ (Nat.succ_pos _)
  omega

theorem depthBound_pos (c : Setting) (l : List Selection) : 0 < depthBound c l := by
  rw [depthBound, foldl_fieldCount]
  exact Nat.mul_pos (by omega) (Nat.succ_pos _)

/-- **Main statement.** Where no fragment leads back to itself through a spread below a field,
lowering a selection ends with a schema. -/
theorem selection_grounded (h : Grounded c.fragments) (place : Place) (inside : List String)
    (t : NamedType) (l : List Selection) :
    ∃ x, (selection c place inside t l).outcome = .ok x :=
  selectionWithin_grounded h t (depthBound_pos c l) fun _ hx => weight_lt_depthBound hx

end SchemaForge.GraphQL
