import SchemaForge.Proofs.GraphQL.Fragments
import SchemaForge.Proofs.Lists

/-!
# What is collected

The fields that a selection asks for on a type, with the directives around them, told apart from how
they are found.

* `found`: the fields in their order, each with the directives on it and around it.
* `collect_eq_found`: when fragments have no cycle, `collect` finds the same fields.
* `collect_eq_of_narrows`: a selection without conditions on other types asks the same of each type.
* `groups_group`: a group holds the uses of one key, in order.
-/

namespace SchemaForge.GraphQL

/-- A field that is asked for, with the directives on it and around it in its object. -/
structure Asked where
  key : String
  use : Use
  guards : List Directive
  deriving Inhabited

namespace Asked

/-- The field under further directives. -/
def under (ds : List Directive) (a : Asked) : Asked := { a with guards := ds ++ a.guards }

/-- The field without directives around it. -/
def bare (a : Asked) : String × Use := (a.key, a.use)

@[simp] theorem bare_under (ds : List Directive) (a : Asked) : (a.under ds).bare = a.bare := rfl

end Asked

namespace Selection

variable {s : TypeSystem} {fs : List Fragment} {t : NamedType}

/-! ## Fields with their directives -/

mutual

/-- The fields in a selection, with what spreads and conditions mean left open. -/
def askedOne (spread : String → List Asked) (accepts : String → Bool) : Selection → List Asked
  | .field label name _ directives selections =>
    [{ key := label.getD name, use := { name, directives, selections }, guards := directives }]
  | .spread fragment directives => (spread fragment).map (.under directives)
  | .inline none directives selections =>
    (askedWith spread accepts selections).map (.under directives)
  | .inline (some condition) directives selections =>
    if accepts condition then (askedWith spread accepts selections).map (.under directives) else []

/-- The fields in selections, with what spreads and conditions mean left open. -/
def askedWith (spread : String → List Asked) (accepts : String → Bool) :
    List Selection → List Asked
  | [] => []
  | s :: rest => askedOne spread accepts s ++ askedWith spread accepts rest

end

/-- The fields in selections for one type, spreads opened to a depth. -/
def asked (s : TypeSystem) (fs : List Fragment) (t : NamedType) :
    Nat → List Selection → List Asked
  | 0, selections => askedWith (fun _ => []) (applies s t) selections
  | depth + 1, selections =>
    askedWith (fun name => match fragment? fs name with
      | none => []
      | some f => if applies s t f.condition then asked s fs t depth f.selections else [])
      (applies s t) selections

/-- The fields in selections for one type. -/
def found (s : TypeSystem) (fs : List Fragment) (t : NamedType) (selections : List Selection) :
    List Asked :=
  asked s fs t (fs.length + 1) selections

theorem askedWith_eq_flatMap (spread : String → List Asked) (accepts : String → Bool) :
    ∀ l : List Selection, askedWith spread accepts l = l.flatMap (askedOne spread accepts)
  | [] => by rw [askedWith, List.flatMap_nil]
  | x :: l => by rw [askedWith, List.flatMap_cons, askedWith_eq_flatMap spread accepts l]

mutual

theorem askedOne_congr {spread spread' : String → List Asked} {accepts : String → Bool} :
    ∀ x : Selection, (∀ n ∈ x.spreads, spread n = spread' n) →
      askedOne spread accepts x = askedOne spread' accepts x
  | .field .., _ => by rw [askedOne, askedOne]
  | .spread f _, h => by rw [askedOne, askedOne, h f (by simp [spreads])]
  | .inline none _ l, h => by
    rw [askedOne, askedOne, askedWith_congr l (by rwa [spreads] at h)]
  | .inline (some _) _ l, h => by
    rw [askedOne, askedOne, askedWith_congr l (by rwa [spreads] at h)]

theorem askedWith_congr {spread spread' : String → List Asked} {accepts : String → Bool} :
    ∀ l : List Selection, (∀ n ∈ spreadsOfAll l, spread n = spread' n) →
      askedWith spread accepts l = askedWith spread' accepts l
  | [], _ => by rw [askedWith, askedWith]
  | x :: l, h => by
    rw [spreadsOfAll] at h
    rw [askedWith, askedWith, askedOne_congr x fun n hn => h n (List.mem_append_left _ hn),
      askedWith_congr l fun n hn => h n (List.mem_append_right _ hn)]

end

/-- The fragments that are spread lie below a depth. -/
def Below (fs : List Fragment) (depth : Nat) (l : List Selection) : Prop :=
  ∀ n ∈ spreadsOfAll l, ∀ f, fragment? fs n = some f → rank fs n < depth

theorem below_length (fs : List Fragment) (l : List Selection) : Below fs (fs.length + 1) l :=
  fun n _ _ _ => Nat.lt_succ_of_le (rank_le fs n)

theorem Below.fragment {depth : Nat} {l : List Selection} {n : String} {f : Fragment}
    (h : Below fs (depth + 1) l) (ha : Acyclic fs) (hn : n ∈ spreadsOfAll l)
    (hf : fragment? fs n = some f) : Below fs depth f.selections := by
  intro m hm g hg
  have hlt := rank_lt ha ⟨f, hf, hm⟩ hg
  have hn := h n hn f hf
  omega

/-- Beyond the ranks of the fragments that are spread, the depth does not matter. -/
theorem asked_depth (ha : Acyclic fs) : ∀ (d d' : Nat) (l : List Selection),
    Below fs d l → Below fs d' l → asked s fs t d l = asked s fs t d' l
  | 0, 0, l, _, _ => rfl
  | 0, d' + 1, l, h, _ => by
    rw [asked, asked]
    refine askedWith_congr l fun n hn => ?_
    rcases hf : fragment? fs n with _ | f
    · rfl
    · exact absurd (h n hn f hf) (Nat.not_lt_zero _)
  | d + 1, 0, l, _, h => by
    rw [asked, asked]
    refine askedWith_congr l fun n hn => ?_
    rcases hf : fragment? fs n with _ | f
    · rfl
    · exact absurd (h n hn f hf) (Nat.not_lt_zero _)
  | d + 1, d' + 1, l, h, h' => by
    rw [asked, asked]
    refine askedWith_congr l fun n hn => ?_
    rcases hf : fragment? fs n with _ | f
    · rfl
    · dsimp only
      rw [asked_depth ha d d' f.selections (h.fragment ha hn hf) (h'.fragment ha hn hf)]

/-! ## The equations of what is found -/

theorem found_one (x : Selection) : found s fs t [x] = askedOne (fun name =>
      match fragment? fs name with
      | none => []
      | some f => if applies s t f.condition then asked s fs t fs.length f.selections else [])
    (applies s t) x := by
  rw [found, asked, askedWith, askedWith, List.append_nil]

theorem found_eq_flatMap (l : List Selection) :
    found s fs t l = l.flatMap fun x => found s fs t [x] := by
  simp only [found_one]
  rw [found, asked, askedWith_eq_flatMap]

theorem found_nil : found s fs t [] = [] := by rw [found, asked, askedWith]

theorem found_cons (x : Selection) (l : List Selection) :
    found s fs t (x :: l) = found s fs t [x] ++ found s fs t l := by
  rw [found_eq_flatMap (x :: l), List.flatMap_cons, ← found_eq_flatMap]

theorem found_field {label : Option String} {name : String}
    {arguments : List (String × Literal)} {ds : List Directive} {l : List Selection} :
    found s fs t [.field label name arguments ds l] =
      [{ key := label.getD name, use := { name, directives := ds, selections := l },
         guards := ds }] := by
  rw [found_one, askedOne]

theorem found_inline {condition : Option String} {ds : List Directive} {l : List Selection} :
    found s fs t [.inline condition ds l] =
      if condition.all (applies s t) then (found s fs t l).map (.under ds) else [] := by
  rw [found_one]
  cases condition with
  | none => rw [askedOne, found, asked]; rfl
  | some condition => rw [askedOne, found, asked]; rfl

theorem found_spread (ha : Acyclic fs) {name : String} {ds : List Directive} :
    found s fs t [.spread name ds] =
      match fragment? fs name with
      | none => []
      | some f =>
        if applies s t f.condition then (found s fs t f.selections).map (.under ds) else [] := by
  rw [found_one, askedOne]
  rcases hf : fragment? fs name with _ | f
  · rfl
  · have hb : Below fs fs.length f.selections := fun m hm g hg => by
      have hlt := rank_lt ha ⟨f, hf, hm⟩ hg
      have hle := rank_le fs name
      omega
    dsimp only
    rw [found, asked_depth ha fs.length (fs.length + 1) f.selections hb (below_length fs _)]
    split <;> rfl

/-! ## What holds of all fields that are found -/

/-- What is true of a field and the selection that it is, and stays true where an inline fragment or
a spread is around it. -/
structure Inherited (fs : List Fragment) (P : Selection → Asked → Prop) : Prop where
  field : ∀ label name arguments ds l, P (.field label name arguments ds l)
    { key := label.getD name, use := { name, directives := ds, selections := l }, guards := ds }
  inline : ∀ condition ds l x a, x ∈ l → P x a → P (.inline condition ds l) (a.under ds)
  spread : ∀ name ds f x a, fragment? fs name = some f → x ∈ f.selections → P x a →
    P (.spread name ds) (a.under ds)

mutual

theorem askedOne_forall {P : Selection → Asked → Prop} (hP : Inherited fs P)
    {spread : String → List Asked} {accepts : String → Bool}
    (hspread : ∀ name ds, ∀ a ∈ spread name, P (.spread name ds) (a.under ds)) :
    ∀ (x : Selection), ∀ a ∈ askedOne spread accepts x, P x a
  | .field label name arguments ds l, a, h => by
    rw [askedOne, List.mem_singleton] at h
    rw [h]
    exact hP.field label name arguments ds l
  | .spread name ds, _, h => by
    rw [askedOne] at h
    obtain ⟨a, ha, rfl⟩ := List.mem_map.mp h
    exact hspread name ds a ha
  | .inline none ds l, _, h => by
    rw [askedOne] at h
    obtain ⟨a, ha, rfl⟩ := List.mem_map.mp h
    obtain ⟨x, hx, hp⟩ := askedWith_forall hP hspread l a ha
    exact hP.inline none ds l x a hx hp
  | .inline (some condition) ds l, _, h => by
    rw [askedOne] at h
    split at h
    · obtain ⟨a, ha, rfl⟩ := List.mem_map.mp h
      obtain ⟨x, hx, hp⟩ := askedWith_forall hP hspread l a ha
      exact hP.inline (some condition) ds l x a hx hp
    · cases h

theorem askedWith_forall {P : Selection → Asked → Prop} (hP : Inherited fs P)
    {spread : String → List Asked} {accepts : String → Bool}
    (hspread : ∀ name ds, ∀ a ∈ spread name, P (.spread name ds) (a.under ds)) :
    ∀ (l : List Selection), ∀ a ∈ askedWith spread accepts l, ∃ x ∈ l, P x a
  | [], a, h => by
    rw [askedWith] at h
    cases h
  | x :: l, a, h => by
    rw [askedWith] at h
    rcases List.mem_append.mp h with h | h
    · exact ⟨x, List.mem_cons_self, askedOne_forall hP hspread x a h⟩
    · obtain ⟨y, hy, hp⟩ := askedWith_forall hP hspread l a h
      exact ⟨y, List.mem_cons_of_mem _ hy, hp⟩

end

theorem asked_forall {P : Selection → Asked → Prop} (hP : Inherited fs P) :
    ∀ (depth : Nat) (l : List Selection), ∀ a ∈ asked s fs t depth l, ∃ x ∈ l, P x a
  | 0, l, a, h => by
    rw [asked] at h
    exact askedWith_forall hP (fun _ _ _ hn => by cases hn) l a h
  | depth + 1, l, a, h => by
    rw [asked] at h
    refine askedWith_forall hP (fun name ds b hb => ?_) l a h
    rcases hf : fragment? fs name with _ | f
    · rw [hf] at hb
      cases hb
    · rw [hf] at hb
      dsimp only at hb
      split at hb
      · obtain ⟨x, hx, hp⟩ := asked_forall hP depth f.selections b hb
        exact hP.spread name ds f x b hf hx hp
      · cases hb

/-- **An inherited relation holds between each field that is found and one of the selections that it
is found in.** -/
theorem found_forall {P : Selection → Asked → Prop} (hP : Inherited fs P) (l : List Selection) :
    ∀ a ∈ found s fs t l, ∃ x ∈ l, P x a :=
  asked_forall hP _ l

/-- What is spread below a field that is found lies below the selections that it is found in. -/
theorem found_spreads (l : List Selection) : ∀ a ∈ found s fs t l, ∃ x ∈ l,
    ∀ n ∈ spreadsOfAll a.use.selections, ∃ k ∈ x.spreads,
      Relation.ReflTransGen (Spreads fs) k n := by
  refine found_forall (P := fun x a => ∀ n ∈ spreadsOfAll a.use.selections, ∃ k ∈ x.spreads,
    Relation.ReflTransGen (Spreads fs) k n) ⟨?_, ?_, ?_⟩ l
  · exact fun label name arguments ds l n hn => ⟨n, by rwa [spreads], .refl⟩
  · intro condition ds l x a hx h n hn
    obtain ⟨k, hk, hkn⟩ := h n hn
    exact ⟨k, by rw [spreads]; exact spreads_subset hx hk, hkn⟩
  · intro name ds f x a hf hx h n hn
    obtain ⟨k, hk, hkn⟩ := h n hn
    exact ⟨name, by simp [spreads], .head ⟨f, hf, spreads_subset hx hk⟩ hkn⟩

/-! ## The fields that are collected -/

/-- The fields among what is collected. -/
def fieldsIn (collected : List Collected) : List (String × Use) :=
  collected.filterMap fun
    | .field key use => some (key, use)
    | .missing _ => none

theorem fieldsIn_append (l l' : List Collected) :
    fieldsIn (l ++ l') = fieldsIn l ++ fieldsIn l' := List.filterMap_append

mutual

theorem fieldsIn_collectOne {spread : String → List Collected} {spread' : String → List Asked}
    {accepts : String → Bool} : ∀ x : Selection,
    (∀ n ∈ x.spreads, fieldsIn (spread n) = (spread' n).map Asked.bare) →
      fieldsIn (collectOne spread accepts x) = (askedOne spread' accepts x).map Asked.bare
  | .field .., _ => by
    rw [collectOne, askedOne]
    rfl
  | .spread f ds, h => by
    rw [collectOne, askedOne, h f (by simp [spreads]), List.map_map]
    exact List.map_congr_left fun a _ => (a.bare_under ds).symm
  | .inline none ds l, h => by
    rw [collectOne, askedOne, fieldsIn_collectWith l (by rwa [spreads] at h), List.map_map]
    exact List.map_congr_left fun a _ => (a.bare_under ds).symm
  | .inline (some condition) ds l, h => by
    rw [collectOne, askedOne]
    split
    · rw [fieldsIn_collectWith l (by rwa [spreads] at h), List.map_map]
      exact List.map_congr_left fun a _ => (a.bare_under ds).symm
    · rfl

theorem fieldsIn_collectWith {spread : String → List Collected} {spread' : String → List Asked}
    {accepts : String → Bool} : ∀ l : List Selection,
    (∀ n ∈ spreadsOfAll l, fieldsIn (spread n) = (spread' n).map Asked.bare) →
      fieldsIn (collectWith spread accepts l) = (askedWith spread' accepts l).map Asked.bare
  | [], _ => by
    rw [collectWith, askedWith]
    rfl
  | x :: l, h => by
    rw [spreadsOfAll] at h
    rw [collectWith, askedWith, fieldsIn_append, List.map_append,
      fieldsIn_collectOne x fun n hn => h n (List.mem_append_left _ hn),
      fieldsIn_collectWith l fun n hn => h n (List.mem_append_right _ hn)]

end

/-- The fragments that are open are not opened again in selections. -/
def Apart (fs : List Fragment) (inside : List String) (l : List Selection) : Prop :=
  ∀ m ∈ inside, ∀ n ∈ spreadsOfAll l, ¬ Relation.ReflTransGen (Spreads fs) n m

theorem apart_nil (fs : List Fragment) (l : List Selection) : Apart fs [] l :=
  fun _ hm => absurd hm List.not_mem_nil

/-- A fragment is not opened again in its own selections. -/
theorem apart_self (ha : Acyclic fs) {name : String} {f : Fragment}
    (hf : fragment? fs name = some f) : Apart fs [name] f.selections := by
  intro m hm n hn hnm
  obtain rfl := List.mem_singleton.mp hm
  exact ha m (.head' ⟨f, hf, hn⟩ hnm)

theorem Apart.fragment {inside : List String} {l : List Selection} {n : String} {f : Fragment}
    (h : Apart fs inside l) (ha : Acyclic fs) (hn : n ∈ spreadsOfAll l)
    (hf : fragment? fs n = some f) : Apart fs (n :: inside) f.selections := by
  intro m hm k hk hkm
  have hstep : Spreads fs n k := ⟨f, hf, hk⟩
  rcases List.mem_cons.mp hm with rfl | hm
  · exact ha m (.head' hstep hkm)
  · exact h m hm n hn (.head hstep hkm)

theorem fieldsIn_collect (ha : Acyclic fs) : ∀ (depth : Nat) (inside : List String)
    (l : List Selection), Apart fs inside l →
      fieldsIn (collect s fs t depth inside l) = (asked s fs t depth l).map Asked.bare
  | 0, inside, l, _ => by
    rw [collect, asked]
    exact fieldsIn_collectWith l fun n _ => rfl
  | depth + 1, inside, l, h => by
    rw [collect, asked]
    refine fieldsIn_collectWith l fun n hn => ?_
    rcases hf : fragment? fs n with _ | f
    · rfl
    · have hnot : inside.contains n = false := by
        rw [Bool.eq_false_iff]
        intro hc
        exact h n (List.elem_iff.mp hc) n hn .refl
      have ih := fieldsIn_collect ha depth (n :: inside) f.selections (h.fragment ha hn hf)
      dsimp only
      rw [hnot]
      split
      · exact absurd ‹_› (by decide)
      · split
        · exact ih
        · rfl

/-- **Where fragments have no cycle, the fields that are collected are those that are found.** -/
theorem collect_eq_found (ha : Acyclic fs) {inside : List String} {l : List Selection}
    (h : Apart fs inside l) :
    fieldsIn (collect s fs t (fs.length + 1) inside l) = (found s fs t l).map Asked.bare :=
  fieldsIn_collect ha _ inside l h

/-! ## Groups -/

theorem group_eq_foldl (collected : List Collected) : group collected =
    (fieldsIn collected).foldl (fun groups x => addUse groups x.1 x.2) [] := by
  unfold group fieldsIn
  generalize ([] : List Group) = groups
  induction collected generalizing groups with
  | nil => rfl
  | cons c collected ih =>
    rw [List.foldl_cons, ih]
    cases c <;> rfl

/-- Groups hold the fields of a list by their keys, in order, each key once. -/
structure Groups (fields : List (String × Use)) (groups : List Group) : Prop where
  uses : ∀ g ∈ groups, g.uses = (fields.filter (·.1 == g.key)).map (·.2)
  keys : ∀ k, k ∈ groups.map (·.key) ↔ k ∈ fields.map (·.1)
  nodup : (groups.map (·.key)).Nodup

theorem keys_addUse (key : String) (use : Use) (groups : List Group) :
    (addUse groups key use).map (·.key) =
      if key ∈ groups.map (·.key) then groups.map (·.key) else groups.map (·.key) ++ [key] := by
  induction groups with
  | nil => rfl
  | cons x groups ih =>
    rw [addUse]
    by_cases hx : x.key = key
    · simp [hx]
    · rw [if_neg (by simpa using hx), List.map_cons, ih, List.map_cons]
      by_cases hk : key ∈ groups.map (·.key)
      · rw [if_pos hk, if_pos (List.mem_cons_of_mem _ hk)]
      · rw [if_neg hk, if_neg]
        · rfl
        · rw [List.mem_cons]
          exact fun h => h.elim (fun h => hx h.symm) hk

theorem uses_addUse {key : String} {use : Use} {groups : List Group} {g : Group}
    (hd : (groups.map (·.key)).Nodup) (h : g ∈ addUse groups key use) :
    (g ∈ groups ∧ g.key ≠ key) ∨
      (g.key = key ∧ ((∃ g' ∈ groups, g'.key = key ∧ g.uses = g'.uses ++ [use]) ∨
        (key ∉ groups.map (·.key) ∧ g.uses = [use]))) := by
  induction groups with
  | nil =>
    rw [addUse, List.mem_singleton] at h
    rw [h]
    exact .inr ⟨rfl, .inr ⟨List.not_mem_nil, rfl⟩⟩
  | cons x groups ih =>
    rw [List.map_cons, List.nodup_cons] at hd
    rw [addUse] at h
    by_cases hx : x.key = key
    · rw [if_pos (by simpa using hx)] at h
      rcases List.mem_cons.mp h with rfl | h
      · exact .inr ⟨hx, .inl ⟨x, List.mem_cons_self, hx, rfl⟩⟩
      · refine .inl ⟨List.mem_cons_of_mem _ h, fun hg => hd.1 ?_⟩
        rw [hx, ← hg]
        exact List.mem_map_of_mem h
    · rw [if_neg (by simpa using hx)] at h
      rcases List.mem_cons.mp h with rfl | h
      · exact .inl ⟨List.mem_cons_self, hx⟩
      · rcases ih hd.2 h with ⟨hg, hne⟩ | ⟨hg, ⟨g', hg', hrest⟩ | ⟨hnot, huses⟩⟩
        · exact .inl ⟨List.mem_cons_of_mem _ hg, hne⟩
        · exact .inr ⟨hg, .inl ⟨g', List.mem_cons_of_mem _ hg', hrest⟩⟩
        · refine .inr ⟨hg, .inr ⟨?_, huses⟩⟩
          rw [List.map_cons, List.mem_cons]
          exact fun h => h.elim (fun h => hx h.symm) hnot

/-- One more field keeps groups true to their fields. -/
theorem Groups.addUse {fields : List (String × Use)} {groups : List Group}
    (h : Groups fields groups) (key : String) (use : Use) :
    Groups (fields ++ [(key, use)]) (addUse groups key use) where
  uses g hg := by
    rw [List.filter_append, List.map_append]
    rcases uses_addUse h.nodup hg with ⟨hg, hne⟩ | ⟨rfl, ⟨g', hg', hkey, huses⟩ | ⟨hnot, huses⟩⟩
    · rw [h.uses g hg]
      simp [hne.symm]
    · rw [huses, h.uses g' hg', hkey]
      simp
    · have hnone : fields.filter (·.1 == g.key) = [] := by
        rw [List.filter_eq_nil_iff]
        intro x hx hxk
        refine hnot ((h.keys g.key).mpr ?_)
        rw [← beq_iff_eq.mp hxk]
        exact List.mem_map_of_mem hx
      rw [huses, hnone]
      simp
  keys k := by
    have hk := h.keys k
    rw [keys_addUse, List.map_append]
    by_cases hm : key ∈ groups.map (·.key)
    · rw [if_pos hm, hk]
      simp only [List.map_cons, List.map_nil, List.mem_append, List.mem_singleton]
      refine ⟨.inl, fun h' => h'.elim id ?_⟩
      rintro rfl
      exact hk.mp hm
    · rw [if_neg hm, List.mem_append, hk]
      simp
  nodup := by
    rw [keys_addUse]
    by_cases hm : key ∈ groups.map (·.key)
    · rw [if_pos hm]
      exact h.nodup
    · rw [if_neg hm, List.nodup_append]
      refine ⟨h.nodup, List.nodup_singleton _, fun a ha b hb hab => hm ?_⟩
      rw [← List.mem_singleton.mp hb, ← hab]
      exact ha

/-- **The groups of what is collected hold its fields.** -/
theorem groups_group (collected : List Collected) :
    Groups (fieldsIn collected) (group collected) := by
  rw [group_eq_foldl]
  have hfold : ∀ (fields before : List (String × Use)) (groups : List Group),
      Groups before groups →
        Groups (before ++ fields)
          (fields.foldl (fun groups x => addUse groups x.1 x.2) groups) := by
    intro fields
    induction fields with
    | nil =>
      intro before groups h
      rwa [List.append_nil]
    | cons x fields ih =>
      intro before groups h
      have h := ih _ _ (h.addUse x.1 x.2)
      rwa [List.append_assoc] at h
  exact hfold _ [] [] ⟨by simp, by simp, List.nodup_nil⟩

theorem Groups.first {fields : List (String × Use)} {groups : List Group} (h : Groups fields groups)
    {g : Group} (hg : g ∈ groups) : fields.find? (·.1 == g.key) = some (g.key, g.first) := by
  have huses := h.uses g hg
  rw [Group.uses] at huses
  rw [← List.head?_filter]
  rcases hf : fields.filter (·.1 == g.key) with _ | ⟨x, rest⟩
  · rw [hf] at huses
    cases huses
  · rw [hf, List.map_cons] at huses
    have hx : x ∈ fields.filter (·.1 == g.key) := hf ▸ List.mem_cons_self
    have hkey : x.1 = g.key := by simpa using (List.mem_filter.mp hx).2
    rw [hf, List.head?_cons, (List.cons.inj huses).1, ← hkey]

/-! ## Selections without conditions on other types -/

mutual

theorem collectOne_eq_of_narrows {parent : String} {accepts accepts' : String → Bool}
    {spread spread' : String → List Collected} {narrower : String → Bool}
    (hp : accepts parent = true) (hp' : accepts' parent = true) : ∀ x : Selection,
    (∀ n ∈ x.spreads, narrower n = false → spread n = spread' n) →
    narrowsOne narrower parent x = false →
      collectOne spread accepts x = collectOne spread' accepts' x
  | .field .., _, _ => by rw [collectOne, collectOne]
  | .spread f _, h, hn => by
    rw [collectOne, collectOne, h f (by simp [spreads]) (by rwa [narrowsOne] at hn)]
  | .inline none _ l, h, hn => by
    rw [collectOne, collectOne, collectWith_eq_of_narrows hp hp' l (by rwa [spreads] at h)
      (by rwa [narrowsOne] at hn)]
  | .inline (some condition) _ l, h, hn => by
    rw [narrowsOne, Bool.or_eq_false_iff] at hn
    obtain rfl : condition = parent := by simpa using hn.1
    rw [collectOne, collectOne, if_pos hp, if_pos hp',
      collectWith_eq_of_narrows hp hp' l (by rwa [spreads] at h) hn.2]

theorem collectWith_eq_of_narrows {parent : String} {accepts accepts' : String → Bool}
    {spread spread' : String → List Collected} {narrower : String → Bool}
    (hp : accepts parent = true) (hp' : accepts' parent = true) : ∀ l : List Selection,
    (∀ n ∈ spreadsOfAll l, narrower n = false → spread n = spread' n) →
    narrowsWith narrower parent l = false →
      collectWith spread accepts l = collectWith spread' accepts' l
  | [], _, _ => by rw [collectWith, collectWith]
  | x :: l, h, hn => by
    rw [spreadsOfAll] at h
    rw [narrowsWith, Bool.or_eq_false_iff] at hn
    rw [collectWith, collectWith,
      collectOne_eq_of_narrows hp hp' x (fun n hn => h n (List.mem_append_left _ hn)) hn.1,
      collectWith_eq_of_narrows hp hp' l (fun n hn => h n (List.mem_append_right _ hn)) hn.2]

end

/-- **Without conditions on other types the same is collected for every type that a selection
applies to.** -/
theorem collect_eq_of_narrows {t' : NamedType} {parent : String}
    (hp : applies s t parent = true) (hp' : applies s t' parent = true) :
    ∀ (depth : Nat) (inside : List String) (l : List Selection),
      narrows fs parent depth inside l = false →
        collect s fs t depth inside l = collect s fs t' depth inside l
  | 0, inside, l, h => by
    rw [narrows] at h
    rw [collect, collect]
    exact collectWith_eq_of_narrows hp hp' l (fun _ _ _ => rfl) h
  | depth + 1, inside, l, h => by
    rw [narrows] at h
    rw [collect, collect]
    refine collectWith_eq_of_narrows hp hp' l (fun n _ hn => ?_) h
    rcases hf : fragment? fs n with _ | f
    · rfl
    · rw [hf] at hn
      dsimp only at hn ⊢
      split
      · rfl
      · rename_i hc
        rw [Bool.eq_false_iff.mpr hc, Bool.not_false, Bool.true_and, Bool.or_eq_false_iff] at hn
        obtain rfl : f.condition = parent := by simpa using hn.1
        rw [if_pos hp, if_pos hp', collect_eq_of_narrows hp hp' depth (n :: inside) _ hn.2]

end Selection

end SchemaForge.GraphQL
