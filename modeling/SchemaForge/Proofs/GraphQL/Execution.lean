import SchemaForge.Proofs.GraphQL.Collection

/-!
# Collecting fields for a response

How execution collects the fields of a selection for an object: directives decide what is kept, and
a fragment that was spread before is not opened again in the same object.

* `Assignment`: the truth values of the variables in the conditions of directives.
* `Collects`: what execution collects, and which fragments it has opened meanwhile.
* **`Collects.similar`**: it collects the fields that are found and whose directives keep them.
* `collects_total`: it always collects something where fragments have no cycle.
-/

namespace SchemaForge.GraphQL

/-! ## Directives -/

/-- Truth values of the variables in conditions. -/
abbrev Assignment := String → Bool

/-- Whether a condition holds. -/
def Literal.holds (σ : Assignment) : Literal → Bool
  | .variable name => σ name
  | .boolean b => b
  | _ => false

/-- Whether a directive leaves out what it stands on. -/
def Directive.excludes (σ : Assignment) (d : Directive) : Bool :=
  match d.arguments.lookup "if" with
  | some condition =>
    (d.name == "include" && !condition.holds σ) || (d.name == "skip" && condition.holds σ)
  | none => false

/-- Whether what stands under directives is kept. -/
def kept (σ : Assignment) (ds : List Directive) : Bool := ds.all fun d => !d.excludes σ

theorem kept_append {σ : Assignment} {ds ds' : List Directive} :
    kept σ (ds ++ ds') = (kept σ ds && kept σ ds') := List.all_append

/-- The directives on a selection. -/
def Selection.directives : Selection → List Directive
  | .field _ _ _ ds _ | .spread _ ds | .inline _ ds _ => ds

/-! ## Collecting -/

open Selection

/-- Execution collects the fields of selections for an object of a type. It begins with the
fragments that were opened before, and it ends with those that have been opened then. -/
inductive Collects (s : TypeSystem) (fs : List Fragment) (t : NamedType) (σ : Assignment) :
    List String → List Selection → List (String × Use) → List String → Prop
  | nil (seen : List String) : Collects s fs t σ seen [] [] seen
  | excluded {seen seen' : List String} {x : Selection} {rest : List Selection}
    {out : List (String × Use)} : kept σ x.directives = false →
    Collects s fs t σ seen rest out seen' → Collects s fs t σ seen (x :: rest) out seen'
  | field {seen seen' : List String} {label : Option String} {name : String}
    {arguments : List (String × Literal)} {ds : List Directive} {l rest : List Selection}
    {out : List (String × Use)} : kept σ ds = true →
    Collects s fs t σ seen rest out seen' →
    Collects s fs t σ seen (.field label name arguments ds l :: rest)
      ((label.getD name, { name, directives := ds, selections := l }) :: out) seen'
  | opened {seen seen' : List String} {name : String} {ds : List Directive}
    {rest : List Selection} {out : List (String × Use)} : kept σ ds = true → name ∈ seen →
    Collects s fs t σ seen rest out seen' →
    Collects s fs t σ seen (.spread name ds :: rest) out seen'
  | unknown {seen seen' : List String} {name : String} {ds : List Directive}
    {rest : List Selection} {out : List (String × Use)} : kept σ ds = true → name ∉ seen →
    fragment? fs name = none → Collects s fs t σ (name :: seen) rest out seen' →
    Collects s fs t σ seen (.spread name ds :: rest) out seen'
  | foreign {seen seen' : List String} {name : String} {ds : List Directive} {f : Fragment}
    {rest : List Selection} {out : List (String × Use)} : kept σ ds = true → name ∉ seen →
    fragment? fs name = some f → applies s t f.condition = false →
    Collects s fs t σ (name :: seen) rest out seen' →
    Collects s fs t σ seen (.spread name ds :: rest) out seen'
  | spread {seen seen' seen'' : List String} {name : String} {ds : List Directive} {f : Fragment}
    {rest : List Selection} {out out' : List (String × Use)} : kept σ ds = true → name ∉ seen →
    fragment? fs name = some f → applies s t f.condition = true →
    Collects s fs t σ (name :: seen) f.selections out seen' →
    Collects s fs t σ seen' rest out' seen'' →
    Collects s fs t σ seen (.spread name ds :: rest) (out ++ out') seen''
  | foreignInline {seen seen' : List String} {condition : Option String} {ds : List Directive}
    {l rest : List Selection} {out : List (String × Use)} : kept σ ds = true →
    condition.all (applies s t) = false → Collects s fs t σ seen rest out seen' →
    Collects s fs t σ seen (.inline condition ds l :: rest) out seen'
  | inline {seen seen' seen'' : List String} {condition : Option String} {ds : List Directive}
    {l rest : List Selection} {out out' : List (String × Use)} : kept σ ds = true →
    condition.all (applies s t) = true → Collects s fs t σ seen l out seen' →
    Collects s fs t σ seen' rest out' seen'' →
    Collects s fs t σ seen (.inline condition ds l :: rest) (out ++ out') seen''

variable {s : TypeSystem} {fs : List Fragment} {t : NamedType} {σ : Assignment}

/-! ## The fields that are kept -/

/-- The fields whose directives, on them and around them, keep them. -/
def keptFields (σ : Assignment) (l : List Asked) : List (String × Use) :=
  (l.filter (kept σ ·.guards)).map Asked.bare

theorem keptFields_append (l l' : List Asked) :
    keptFields σ (l ++ l') = keptFields σ l ++ keptFields σ l' := by
  rw [keptFields, List.filter_append, List.map_append]
  rfl

theorem kept_under {ds : List Directive} {a : Asked} :
    kept σ (a.under ds).guards = (kept σ ds && kept σ a.guards) := kept_append

theorem keptFields_under (ds : List Directive) (l : List Asked) :
    keptFields σ (l.map (.under ds)) = if kept σ ds then keptFields σ l else [] := by
  unfold keptFields
  rw [List.filter_map, List.map_map]
  by_cases hds : kept σ ds = true
  · rw [if_pos hds]
    have hfilter : (fun a : Asked => kept σ a.guards) ∘ Asked.under ds =
        fun a => kept σ a.guards := by
      funext a
      rw [Function.comp_apply, kept_under, hds, Bool.true_and]
    rw [hfilter]
    exact List.map_congr_left fun a _ => a.bare_under ds
  · have hfilter : (fun a : Asked => kept σ a.guards) ∘ Asked.under ds = fun _ => false := by
      funext a
      rw [Function.comp_apply, kept_under, Bool.eq_false_iff.mpr hds, Bool.false_and]
    rw [if_neg hds, hfilter, List.filter_false, List.map_nil]

/-- The fields of selections that are kept for one type. -/
def selected (s : TypeSystem) (fs : List Fragment) (t : NamedType) (σ : Assignment)
    (l : List Selection) : List (String × Use) :=
  keptFields σ (found s fs t l)

theorem selected_nil : selected s fs t σ [] = [] := by
  rw [selected, found_nil]
  rfl

theorem selected_cons (x : Selection) (l : List Selection) :
    selected s fs t σ (x :: l) = selected s fs t σ [x] ++ selected s fs t σ l := by
  rw [selected, found_cons, keptFields_append]
  rfl

theorem selected_eq_flatMap (l : List Selection) :
    selected s fs t σ l = l.flatMap fun x => selected s fs t σ [x] := by
  induction l with
  | nil => rw [selected_nil, List.flatMap_nil]
  | cons x l ih => rw [selected_cons, List.flatMap_cons, ih]

theorem mem_selected {use : String × Use} {l : List Selection} : use ∈ selected s fs t σ l ↔
    ∃ x ∈ l, ∃ a ∈ found s fs t [x], kept σ a.guards = true ∧ a.bare = use := by
  rw [selected_eq_flatMap, List.mem_flatMap]
  refine exists_congr fun x => and_congr_right fun _ => ?_
  simp only [selected, keptFields, List.mem_map, List.mem_filter, and_assoc]

theorem selected_field {label : Option String} {name : String}
    {arguments : List (String × Literal)} {ds : List Directive} {l : List Selection} :
    selected s fs t σ [.field label name arguments ds l] =
      if kept σ ds then [(label.getD name, { name, directives := ds, selections := l })]
      else [] := by
  rw [selected, found_field, keptFields, List.filter_cons]
  split <;> rfl

theorem selected_inline {condition : Option String} {ds : List Directive} {l : List Selection} :
    selected s fs t σ [.inline condition ds l] =
      if kept σ ds ∧ condition.all (applies s t) then selected s fs t σ l else [] := by
  rw [selected, found_inline]
  by_cases hc : condition.all (applies s t) = true
  · rw [if_pos hc, keptFields_under]
    by_cases hds : kept σ ds = true
    · rw [if_pos hds, if_pos ⟨hds, hc⟩]
      rfl
    · rw [if_neg hds, if_neg fun h => hds h.1]
  · rw [if_neg hc, if_neg fun h => hc h.2]
    rfl

theorem selected_spread (ha : Acyclic fs) {name : String} {ds : List Directive} :
    selected s fs t σ [.spread name ds] =
      match fragment? fs name with
      | none => []
      | some f =>
        if kept σ ds ∧ applies s t f.condition then selected s fs t σ f.selections else [] := by
  rw [selected, found_spread ha]
  rcases fragment? fs name with _ | f
  · rfl
  · dsimp only
    by_cases hc : applies s t f.condition = true
    · rw [if_pos hc, keptFields_under]
      by_cases hds : kept σ ds = true
      · rw [if_pos hds, if_pos ⟨hds, hc⟩]
        rfl
      · rw [if_neg hds, if_neg fun h => hds h.1]
    · rw [if_neg hc, if_neg fun h => hc h.2]
      rfl

theorem selected_excluded (ha : Acyclic fs) {x : Selection} (h : kept σ x.directives = false) :
    selected s fs t σ [x] = [] := by
  cases x with
  | field label name arguments ds l =>
    have hds : kept σ ds = false := h
    rw [selected_field, hds]
    rfl
  | spread name ds =>
    have hds : kept σ ds = false := h
    rw [selected_spread ha]
    rcases fragment? fs name with _ | f
    · rfl
    · simp [hds]
  | inline condition ds l =>
    have hds : kept σ ds = false := h
    rw [selected_inline]
    simp [hds]

/-! ## Collecting finds what is kept -/

/-- All that a fragment selects has been collected. -/
def Done (s : TypeSystem) (fs : List Fragment) (t : NamedType) (σ : Assignment)
    (collected : List (String × Use)) (name : String) : Prop :=
  ∀ f, fragment? fs name = some f → applies s t f.condition = true →
    selected s fs t σ f.selections ⊆ collected

theorem Done.mono {l l' : List (String × Use)} {name : String} (h : Done s fs t σ l name)
    (hl : l ⊆ l') : Done s fs t σ l' name := fun f hf hc _ hx => hl (h f hf hc hx)

/-- What holds at the end of collecting, when `before` was collected at its beginning: up to
repetitions the selected fields have been added, and the fragments that have been opened are done,
except those that are still open. -/
structure Collected.Ends (s : TypeSystem) (fs : List Fragment) (t : NamedType) (σ : Assignment)
    (l : List Selection) (before out : List (String × Use)) (inside seen' : List String) :
    Prop where
  similar : Similar (before ++ out) (before ++ selected s fs t σ l)
  done : ∀ name ∈ seen', name ∉ inside → Done s fs t σ (before ++ out) name

theorem Selection.Apart.tail {inside : List String} {x : Selection} {l : List Selection}
    (h : Apart fs inside (x :: l)) : Apart fs inside l := fun m hm n hn =>
  h m hm n (by rw [spreadsOfAll]; exact List.mem_append_right _ hn)

theorem Selection.Apart.head {inside : List String} {x : Selection} {l : List Selection}
    (h : Apart fs inside (x :: l)) : ∀ m ∈ inside, ∀ n ∈ x.spreads,
      ¬ Relation.ReflTransGen (Spreads fs) n m := fun m hm n hn =>
  h m hm n (by rw [spreadsOfAll]; exact List.mem_append_left _ hn)

theorem Collects.ends (ha : Acyclic fs) {seen seen' : List String} {l : List Selection}
    {out : List (String × Use)} (h : Collects s fs t σ seen l out seen') :
    ∀ (inside : List String) (before : List (String × Use)), Apart fs inside l →
      (∀ name ∈ seen, name ∉ inside → Done s fs t σ before name) →
        Collected.Ends s fs t σ l before out inside seen' := by
  induction h with
  | nil seen =>
    intro inside before _ hdone
    rw [← List.append_nil before] at hdone
    exact ⟨by rw [selected_nil]; exact .refl _, hdone⟩
  | excluded hk _ ih =>
    intro inside before hin hdone
    obtain ⟨hs, hd⟩ := ih inside before hin.tail hdone
    refine ⟨?_, hd⟩
    rwa [selected_cons, selected_excluded ha hk]
  | @field seen seen' label name arguments ds l rest out hk _ ih =>
    intro inside before hin hdone
    obtain ⟨hs, hd⟩ := ih inside
      (before ++ [(label.getD name, { name, directives := ds, selections := l })]) hin.tail
      fun name hn hni => (hdone name hn hni).mono (List.subset_append_left _ _)
    rw [List.append_assoc] at hs hd
    refine ⟨?_, hd⟩
    rw [selected_cons, selected_field, if_pos hk]
    rwa [List.append_assoc] at hs
  | @opened seen seen' name ds rest out hk hseen _ ih =>
    intro inside before hin hdone
    obtain ⟨hs, hd⟩ := ih inside before hin.tail hdone
    refine ⟨hs.trans ?_, hd⟩
    rw [selected_cons, ← List.append_assoc]
    refine Similar.append (Similar.absorb fun x hx => ?_).symm (.refl _)
    have hnot : name ∉ inside := fun hm => hin.head name hm name (by simp [spreads]) .refl
    rw [selected_spread ha] at hx
    split at hx
    · cases hx
    · rename_i f hf
      split at hx
      · rename_i hc
        exact hdone name hseen hnot f hf hc.2 hx
      · cases hx
  | @unknown seen seen' name ds rest out hk hseen hf _ ih =>
    intro inside before hin hdone
    obtain ⟨hs, hd⟩ := ih inside before hin.tail fun n hn hni => by
      rcases List.mem_cons.mp hn with rfl | hn
      · intro f hf'
        rw [hf] at hf'
        cases hf'
      · exact hdone n hn hni
    refine ⟨?_, hd⟩
    rwa [selected_cons, selected_spread ha, hf]
  | @foreign seen seen' name ds f rest out hk hseen hf hc _ ih =>
    intro inside before hin hdone
    obtain ⟨hs, hd⟩ := ih inside before hin.tail fun n hn hni => by
      rcases List.mem_cons.mp hn with rfl | hn
      · intro f' hf' hc'
        obtain rfl := Option.some.inj (hf.symm.trans hf')
        rw [hc] at hc'
        cases hc'
      · exact hdone n hn hni
    refine ⟨?_, hd⟩
    rw [selected_cons, selected_spread ha, hf]
    simpa [hc] using hs
  | @spread seen seen' seen'' name ds f rest out out' hk hseen hf hc _ _ ih ih' =>
    intro inside before hin hdone
    have hinner : Apart fs (name :: inside) f.selections :=
      hin.fragment ha (by rw [spreadsOfAll, spreads]; exact List.mem_cons_self) hf
    obtain ⟨hs, hd⟩ := ih (name :: inside) before hinner fun n hn hni => by
      rw [List.mem_cons, not_or] at hni
      exact hdone n ((List.mem_cons.mp hn).resolve_left hni.1) hni.2
    have hown : Done s fs t σ (before ++ out) name := fun f' hf' hc' => by
      obtain rfl := Option.some.inj (hf.symm.trans hf')
      exact fun x hx => hs.mem_iff.mpr (List.mem_append_right _ hx)
    obtain ⟨hs', hd'⟩ := ih' inside (before ++ out) hin.tail fun n hn hni => by
      by_cases hnn : n = name
      · rw [hnn]
        exact hown
      · exact hd n hn (by rw [List.mem_cons, not_or]; exact ⟨hnn, hni⟩)
    rw [List.append_assoc] at hs' hd'
    refine ⟨hs'.trans ?_, hd'⟩
    rw [selected_cons, selected_spread ha, hf, ← List.append_assoc]
    simp only [hk, hc, and_self, if_true]
    exact hs.append (.refl _)
  | foreignInline hk hc _ ih =>
    intro inside before hin hdone
    obtain ⟨hs, hd⟩ := ih inside before hin.tail hdone
    refine ⟨?_, hd⟩
    rw [selected_cons, selected_inline]
    simpa [hc] using hs
  | inline hk hc _ _ ih ih' =>
    intro inside before hin hdone
    obtain ⟨hs, hd⟩ := ih inside before (fun m hm n hn => hin.head m hm n (by rwa [spreads])) hdone
    obtain ⟨hs', hd'⟩ := ih' inside _ hin.tail hd
    rw [List.append_assoc] at hs' hd'
    refine ⟨hs'.trans ?_, hd'⟩
    rw [selected_cons, selected_inline, ← List.append_assoc]
    simp only [hk, hc, and_self, if_true]
    exact hs.append (.refl _)

/-- **Execution collects the fields that are selected, up to repetitions.** -/
theorem Collects.similar (ha : Acyclic fs) {l : List Selection} {out : List (String × Use)}
    {seen' : List String} (h : Collects s fs t σ [] l out seen') :
    Similar out (selected s fs t σ l) := by
  have hends := h.ends ha [] [] (by intro m hm; cases hm) (by intro m hm; cases hm)
  simpa using hends.similar

/-! ## Execution always collects -/

/-- Execution goes on from any point with what a fragment selects. -/
def Collectable (s : TypeSystem) (fs : List Fragment) (t : NamedType) (σ : Assignment)
    (l : List Selection) : Prop :=
  ∀ seen, ∃ out seen', Collects s fs t σ seen l out seen'

mutual

theorem collects_one : ∀ x : Selection,
    (∀ n ∈ x.spreads, ∀ f, fragment? fs n = some f → Collectable s fs t σ f.selections) →
      ∀ seen, ∃ out seen', ∀ rest out' seen'', Collects s fs t σ seen' rest out' seen'' →
        Collects s fs t σ seen (x :: rest) (out ++ out') seen''
  | .field label name arguments ds l, _, seen => by
    by_cases hk : kept σ ds = true
    · exact ⟨[_], seen, fun _ _ _ h => .field hk h⟩
    · exact ⟨[], seen, fun _ _ _ h => .excluded (Bool.eq_false_iff.mpr hk) h⟩
  | .spread name ds, hf, seen => by
    by_cases hk : kept σ ds = true
    · by_cases hseen : name ∈ seen
      · exact ⟨[], seen, fun _ _ _ h => .opened hk hseen h⟩
      · rcases hfrag : fragment? fs name with _ | f
        · exact ⟨[], name :: seen, fun _ _ _ h => .unknown hk hseen hfrag h⟩
        · by_cases hc : applies s t f.condition = true
          · obtain ⟨out, seen', h⟩ := hf name (by simp [spreads]) f hfrag (name :: seen)
            exact ⟨out, seen', fun _ _ _ h' => .spread hk hseen hfrag hc h h'⟩
          · exact ⟨[], name :: seen,
              fun _ _ _ h => .foreign hk hseen hfrag (Bool.eq_false_iff.mpr hc) h⟩
    · exact ⟨[], seen, fun _ _ _ h => .excluded (Bool.eq_false_iff.mpr hk) h⟩
  | .inline condition ds l, hf, seen => by
    by_cases hk : kept σ ds = true
    · by_cases hc : condition.all (applies s t) = true
      · obtain ⟨out, seen', h⟩ := collects_all l (by rwa [spreads] at hf) seen
        exact ⟨out, seen', fun _ _ _ h' => .inline hk hc h h'⟩
      · exact ⟨[], seen, fun _ _ _ h => .foreignInline hk (Bool.eq_false_iff.mpr hc) h⟩
    · exact ⟨[], seen, fun _ _ _ h => .excluded (Bool.eq_false_iff.mpr hk) h⟩

theorem collects_all : ∀ l : List Selection,
    (∀ n ∈ spreadsOfAll l, ∀ f, fragment? fs n = some f → Collectable s fs t σ f.selections) →
      Collectable s fs t σ l
  | [], _ => fun seen => ⟨[], seen, .nil seen⟩
  | x :: l, hf => fun seen => by
    rw [spreadsOfAll] at hf
    obtain ⟨out, seen', h⟩ := collects_one x (fun n hn => hf n (List.mem_append_left _ hn)) seen
    obtain ⟨out', seen'', h'⟩ :=
      collects_all l (fun n hn => hf n (List.mem_append_right _ hn)) seen'
    exact ⟨out ++ out', seen'', h l out' seen'' h'⟩

end

theorem collects_below (ha : Acyclic fs) : ∀ (depth : Nat) (l : List Selection),
    Below fs depth l → Collectable s fs t σ l
  | 0, l, h => collects_all l fun n hn f hf => absurd (h n hn f hf) (Nat.not_lt_zero _)
  | depth + 1, l, h =>
    collects_all l fun _ hn f hf => collects_below ha depth f.selections (h.fragment ha hn hf)

/-- **Where fragments have no cycle, execution collects something from any point.** -/
theorem collects_total (ha : Acyclic fs) (l : List Selection) : Collectable s fs t σ l :=
  collects_below ha _ l (below_length fs l)

end SchemaForge.GraphQL
