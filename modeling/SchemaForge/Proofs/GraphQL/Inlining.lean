import SchemaForge.Proofs.GraphQL.Nesting

/-!
# Spreads as inline fragments

A spread says the same as an inline fragment with the condition and the selections of the fragment.
Spreads are opened under a list of the fragments that are open already, inline fragments are not;
where no fragment leads back to itself, none of those that are open is ever met.

* `Inlines`: selections, and what becomes of them when an inline fragment takes the place of every
  spread, at any depth; `exists_inlines`: this can be done.
* `Clear`: spreads that can be opened down to the last one.
* `collect_inlines`, `narrows_inlines`: both have the same fields and the same conditions.
* `group_inlines`: the groups of both agree but for the selections below them, which are inlined.
* `selectionWithin_depth`: any depth that is large enough will do.
* **`selection_inlines`**: lowering both gives the same schema, and the same is noticed on the way.
-/

namespace SchemaForge.GraphQL

namespace Selection

variable {s : TypeSystem} {fs gs : List Fragment} {t : NamedType} {depth : Nat}
  {inside : List String} {l l' m m' rest : List Selection} {ds : List Directive} {parent : String}

/-- The second list holds the selections of the first one, with an inline fragment in place of every
spread, at any depth. The inline fragment has the condition and the selections of the fragment, and
any directives: lowering does not look at those around a field. -/
inductive Inlines (fs : List Fragment) : List Selection → List Selection → Prop
  | nil : Inlines fs [] []
  | field {label : Option String} {name : String} {arguments : List (String × Literal)}
    {ds : List Directive} {l l' rest rest' : List Selection} :
    Inlines fs l l' → Inlines fs rest rest' →
    Inlines fs (.field label name arguments ds l :: rest)
      (.field label name arguments ds l' :: rest')
  | inline {condition : Option String} {ds : List Directive} {l l' rest rest' : List Selection} :
    Inlines fs l l' → Inlines fs rest rest' →
    Inlines fs (.inline condition ds l :: rest) (.inline condition ds l' :: rest')
  | spread {name : String} {ds ds' : List Directive} {f : Fragment}
    {l' rest rest' : List Selection} :
    fragment? fs name = some f → Inlines fs f.selections l' → Inlines fs rest rest' →
    Inlines fs (.spread name ds :: rest) (.inline (some f.condition) ds' l' :: rest')

namespace Inlines

theorem append (h : Inlines fs l l') (hm : Inlines fs m m') : Inlines fs (l ++ m) (l' ++ m') := by
  induction h with
  | nil => exact hm
  | field hl _ _ ih => exact .field hl ih
  | inline hl _ _ ih => exact .inline hl ih
  | spread hf hl _ _ ih => exact .spread hf hl ih

/-- Nothing is spread where spreads have been inlined. -/
theorem spreadsOfAll_eq_nil (h : Inlines fs l l') : spreadsOfAll l' = [] := by
  induction h with
  | nil => rfl
  | field _ _ ihl ih | inline _ _ ihl ih | spread _ _ _ ihl ih =>
    rw [spreadsOfAll, spreads, ihl, ih, List.append_nil]

/-- What becomes of spreads depends only on the fragments that are found under their names. -/
theorem congr (h : Inlines fs l l') (hfind : ∀ name, fragment? fs name = fragment? gs name) :
    Inlines gs l l' := by
  induction h with
  | nil => exact .nil
  | field _ _ ihl ih => exact .field ihl ih
  | inline _ _ ihl ih => exact .inline ihl ih
  | @spread name _ _ _ _ _ _ hf _ _ ihl ih => exact .spread (by rw [← hfind name, hf]) ihl ih

end Inlines

/-! ## Collecting -/

theorem collect_nil : collect s fs t depth inside [] = [] := by
  cases depth <;> rw [collect, collectWith]

theorem collect_field {label : Option String} {name : String}
    {arguments : List (String × Literal)} :
    collect s fs t depth inside (.field label name arguments ds l :: rest) =
      .field (label.getD name) { name, directives := ds, selections := l } ::
        collect s fs t depth inside rest := by
  cases depth <;> rw [collect, collect, collectWith, collectOne] <;> rfl

theorem collect_inline {condition : Option String} :
    collect s fs t depth inside (.inline condition ds l :: rest) =
      (if condition.all (applies s t) then collect s fs t depth inside l else []) ++
        collect s fs t depth inside rest := by
  cases depth <;> cases condition <;>
    rw [collect, collect, collect, collectWith, collectOne] <;> rfl

theorem collect_spread {name : String} {f : Fragment} (hf : fragment? fs name = some f)
    (hname : name ∉ inside) :
    collect s fs t (depth + 1) inside (.spread name ds :: rest) =
      (if applies s t f.condition then collect s fs t depth (name :: inside) f.selections
        else []) ++ collect s fs t (depth + 1) inside rest := by
  have hclosed : inside.contains name = false := by simpa using hname
  rw [collect, collect, collectWith, collectOne, hf]
  dsimp only
  rw [hclosed]
  rfl

/-! ## Conditions -/

theorem narrows_nil : narrows fs parent depth inside [] = false := by
  cases depth <;> rw [narrows, narrowsWith]

theorem narrows_field {label : Option String} {name : String}
    {arguments : List (String × Literal)} :
    narrows fs parent depth inside (.field label name arguments ds l :: rest) =
      narrows fs parent depth inside rest := by
  cases depth <;> rw [narrows, narrows, narrowsWith, narrowsOne, Bool.false_or]

theorem narrows_inline {condition : Option String} :
    narrows fs parent depth inside (.inline condition ds l :: rest) =
      (condition.any (· != parent) || narrows fs parent depth inside l ||
        narrows fs parent depth inside rest) := by
  cases depth <;> cases condition <;>
    rw [narrows, narrows, narrows, narrowsWith, narrowsOne] <;> rfl

theorem narrows_spread {name : String} {f : Fragment} (hf : fragment? fs name = some f)
    (hname : name ∉ inside) :
    narrows fs parent (depth + 1) inside (.spread name ds :: rest) =
      (f.condition != parent || narrows fs parent depth (name :: inside) f.selections ||
        narrows fs parent (depth + 1) inside rest) := by
  have hclosed : inside.contains name = false := by simpa using hname
  rw [narrows, narrows, narrowsWith, narrowsOne, hf]
  dsimp only
  rw [hclosed]
  rfl

/-! ## Spreads that can be opened -/

/-- Spreads can be opened down to the last one: they lie below a depth, and none of the fragments
that are open is met. -/
structure Clear (fs : List Fragment) (depth : Nat) (inside : List String) (l : List Selection) :
    Prop where
  below : Below fs depth l
  apart : Apart fs inside l

/-- All fragments that selections spread are defined. -/
def Defined (fs : List Fragment) (l : List Selection) : Prop :=
  ∀ n ∈ spreadsOfAll l, ∃ f, fragment? fs n = some f

theorem spreadsOfAll_tail {x : Selection} : spreadsOfAll rest ⊆ spreadsOfAll (x :: rest) := by
  rw [spreadsOfAll]
  exact List.subset_append_right _ _

theorem spreadsOfAll_field {label : Option String} {name : String}
    {arguments : List (String × Literal)} :
    spreadsOfAll l ⊆ spreadsOfAll (.field label name arguments ds l :: rest) := by
  rw [spreadsOfAll, spreads]
  exact List.subset_append_left _ _

theorem spreadsOfAll_inline {condition : Option String} :
    spreadsOfAll l ⊆ spreadsOfAll (.inline condition ds l :: rest) := by
  rw [spreadsOfAll, spreads]
  exact List.subset_append_left _ _

theorem mem_spreadsOfAll_spread {name : String} :
    name ∈ spreadsOfAll (.spread name ds :: rest) := by
  rw [spreadsOfAll, spreads]
  exact List.mem_cons_self

theorem Defined.mono (h : Defined fs l) (hsub : spreadsOfAll m ⊆ spreadsOfAll l) : Defined fs m :=
  fun n hn => h n (hsub hn)

theorem Clear.mono (h : Clear fs depth inside l) (hsub : spreadsOfAll m ⊆ spreadsOfAll l) :
    Clear fs depth inside m :=
  ⟨fun n hn => h.below n (hsub hn), fun o ho n hn => h.apart o ho n (hsub hn)⟩

/-- **A spread can be opened, and then those in its fragment can.** -/
theorem Clear.spread {name : String} {f : Fragment} (ha : Acyclic fs)
    (h : Clear fs depth inside (.spread name ds :: rest)) (hf : fragment? fs name = some f) :
    ∃ d, depth = d + 1 ∧ name ∉ inside ∧ Clear fs d (name :: inside) f.selections := by
  have hmem : name ∈ spreadsOfAll (.spread name ds :: rest) := mem_spreadsOfAll_spread
  have hdepth := h.below name hmem f hf
  obtain ⟨d, rfl⟩ : ∃ d, depth = d + 1 := ⟨depth - 1, by omega⟩
  exact ⟨d, rfl, fun hname => h.apart name hname name hmem .refl,
    h.below.fragment ha hmem hf, h.apart.fragment ha hmem hf⟩

/-- **Defined spreads can be inlined where fragments have no cycle.** The recursion follows the
selections, and into the fragments as deep as they lie. -/
theorem exists_inlines (ha : Acyclic fs)
    (hfs : ∀ name f, fragment? fs name = some f → Defined fs f.selections) :
    ∀ (depth : Nat) (inside : List String) (l : List Selection), Clear fs depth inside l →
      Defined fs l → ∃ l', Inlines fs l l'
  | _, _, [], _, _ => ⟨[], .nil⟩
  | depth, inside, .field label name arguments ds l :: rest, hc, hd => by
    obtain ⟨l', hl⟩ := exists_inlines ha hfs depth inside l (hc.mono spreadsOfAll_field)
      (hd.mono spreadsOfAll_field)
    obtain ⟨rest', hrest⟩ := exists_inlines ha hfs depth inside rest (hc.mono spreadsOfAll_tail)
      (hd.mono spreadsOfAll_tail)
    exact ⟨_, .field hl hrest⟩
  | depth, inside, .inline condition ds l :: rest, hc, hd => by
    obtain ⟨l', hl⟩ := exists_inlines ha hfs depth inside l (hc.mono spreadsOfAll_inline)
      (hd.mono spreadsOfAll_inline)
    obtain ⟨rest', hrest⟩ := exists_inlines ha hfs depth inside rest (hc.mono spreadsOfAll_tail)
      (hd.mono spreadsOfAll_tail)
    exact ⟨_, .inline hl hrest⟩
  | depth, inside, .spread name ds :: rest, hc, hd => by
    obtain ⟨f, hf⟩ := hd name mem_spreadsOfAll_spread
    obtain ⟨d, hdepth, -, hopen⟩ := hc.spread ha hf
    obtain ⟨l', hl⟩ := exists_inlines ha hfs d (name :: inside) f.selections hopen (hfs name f hf)
    obtain ⟨rest', hrest⟩ := exists_inlines ha hfs depth inside rest (hc.mono spreadsOfAll_tail)
      (hd.mono spreadsOfAll_tail)
    exact ⟨.inline (some f.condition) ds l' :: rest', .spread hf hl hrest⟩
termination_by depth _ l => (depth, sizeOf l)

end Selection

open Selection Lowering

variable {s : TypeSystem} {fs fs' : List Fragment} {t : NamedType} {l l' : List Selection}

/-! ## The same is collected -/

/-- The same use of a field, with spreads inlined below it. -/
structure Use.Inlines (fs : List Fragment) (u u' : Use) : Prop where
  name : u'.name = u.name
  directives : u'.directives = u.directives
  selections : Selection.Inlines fs u.selections u'.selections

/-- The same field, with spreads inlined below it. -/
inductive Collected.Inlines (fs : List Fragment) : Collected → Collected → Prop
  | field {key : String} {u u' : Use} : u.Inlines fs u' →
    Inlines fs (.field key u) (.field key u')

/-- The same group, with spreads inlined below its fields. -/
structure Group.Inlines (fs : List Fragment) (g g' : Group) : Prop where
  key : g'.key = g.key
  first : g.first.Inlines fs g'.first
  more : List.Forall₂ (Use.Inlines fs) g.more g'.more

/-- **The same is collected.** Which fragments there are and which are open does not matter once
spreads have been inlined. -/
theorem collect_inlines (ha : Acyclic fs) (h : Selection.Inlines fs l l') :
    ∀ {depth : Nat} {inside : List String}, Clear fs depth inside l →
      ∀ (fs' : List Fragment) (depth' : Nat) (inside' : List String),
        List.Forall₂ (Collected.Inlines fs) (collect s fs t depth inside l)
          (collect s fs' t depth' inside' l') := by
  induction h with
  | nil =>
    intro depth inside _ fs' depth' inside'
    rw [collect_nil, collect_nil]
    exact .nil
  | field hl _ _ ih =>
    intro depth inside hc fs' depth' inside'
    rw [collect_field, collect_field]
    exact .cons (.field ⟨rfl, rfl, hl⟩) (ih (hc.mono spreadsOfAll_tail) fs' depth' inside')
  | inline _ _ ihl ih =>
    intro depth inside hc fs' depth' inside'
    rw [collect_inline, collect_inline]
    refine List.rel_append ?_ (ih (hc.mono spreadsOfAll_tail) fs' depth' inside')
    split
    · exact ihl (hc.mono spreadsOfAll_inline) fs' depth' inside'
    · exact .nil
  | spread hf _ _ ihl ih =>
    intro depth inside hc fs' depth' inside'
    obtain ⟨d, rfl, hname, hopen⟩ := hc.spread ha hf
    rw [collect_spread hf hname, collect_inline, Option.all_some]
    refine List.rel_append ?_ (ih (hc.mono spreadsOfAll_tail) fs' depth' inside')
    split
    · exact ihl hopen fs' depth' inside'
    · exact .nil

/-- **The same conditions are found.** -/
theorem narrows_inlines {parent : String} (ha : Acyclic fs) (h : Selection.Inlines fs l l') :
    ∀ {depth : Nat} {inside : List String}, Clear fs depth inside l →
      ∀ (fs' : List Fragment) (depth' : Nat) (inside' : List String),
        narrows fs' parent depth' inside' l' = narrows fs parent depth inside l := by
  induction h with
  | nil =>
    intro depth inside _ fs' depth' inside'
    rw [narrows_nil, narrows_nil]
  | field _ _ _ ih =>
    intro depth inside hc fs' depth' inside'
    rw [narrows_field, narrows_field, ih (hc.mono spreadsOfAll_tail)]
  | inline _ _ ihl ih =>
    intro depth inside hc fs' depth' inside'
    rw [narrows_inline, narrows_inline, ihl (hc.mono spreadsOfAll_inline),
      ih (hc.mono spreadsOfAll_tail)]
  | spread hf _ _ ihl ih =>
    intro depth inside hc fs' depth' inside'
    obtain ⟨d, rfl, hname, hopen⟩ := hc.spread ha hf
    rw [narrows_spread hf hname, narrows_inline, ihl hopen, ih (hc.mono spreadsOfAll_tail),
      Option.any_some]

/-- No fragment is missed where what is collected has spreads inlined below it. -/
theorem missing_inlines {found found' : List Collected}
    (h : List.Forall₂ (Collected.Inlines fs) found found') :
    missing found = [] ∧ missing found' = [] := by
  induction h with
  | nil => exact ⟨rfl, rfl⟩
  | cons hx _ ih =>
    cases hx
    exact ih

/-! ## Groups -/

theorem addUse_inlines {groups groups' : List Group} {key : String} {u u' : Use}
    (h : List.Forall₂ (Group.Inlines fs) groups groups') (hu : u.Inlines fs u') :
    List.Forall₂ (Group.Inlines fs) (addUse groups key u) (addUse groups' key u') := by
  induction h with
  | nil => exact .cons ⟨rfl, hu, .nil⟩ .nil
  | cons hg hrest ih =>
    rw [addUse, addUse, hg.key]
    split
    · exact .cons ⟨rfl, hg.first, List.rel_append hg.more (.cons hu .nil)⟩ hrest
    · exact .cons hg ih

/-- **The same groups are formed.** -/
theorem group_inlines {found found' : List Collected}
    (h : List.Forall₂ (Collected.Inlines fs) found found') :
    List.Forall₂ (Group.Inlines fs) (group found) (group found') := by
  have hfold : ∀ {groups groups' : List Group}, List.Forall₂ (Group.Inlines fs) groups groups' →
      List.Forall₂ (Group.Inlines fs)
        ((fieldsIn found).foldl (fun groups x => addUse groups x.1 x.2) groups)
        ((fieldsIn found').foldl (fun groups x => addUse groups x.1 x.2) groups') := by
    induction h with
    | nil => exact id
    | cons hx _ ih =>
      intro groups groups' hg
      obtain ⟨hu⟩ := hx
      exact ih (addUse_inlines hg hu)
  rw [group_eq_foldl, group_eq_foldl]
  exact hfold .nil

namespace Group.Inlines

variable {g g' : Group}

theorem uses (h : g.Inlines fs g') : List.Forall₂ (Use.Inlines fs) g.uses g'.uses :=
  .cons h.first h.more

theorem isConditional_eq (h : g.Inlines fs g') : g'.isConditional = g.isConditional := by
  have huses := h.uses
  unfold Group.isConditional
  generalize g.uses = us, g'.uses = us' at huses
  induction huses with
  | nil => rfl
  | cons hu _ ih => rw [List.any_cons, List.any_cons, hu.directives, ih]

theorem selections (h : g.Inlines fs g') : Selection.Inlines fs g.selections g'.selections := by
  have huses := h.uses
  unfold Group.selections
  generalize g.uses = us, g'.uses = us' at huses
  induction huses with
  | nil => exact .nil
  | cons hu _ ih => exact hu.selections.append ih

end Group.Inlines

/-! ## Lowering -/

namespace Lowering

variable {c : Setting} {place : Place} {inside inside' : List String}
  {nested nested' : NamedType → List Selection → Lower Schema}

/-- Of its group a property depends on the key, the name, whether it is conditional, and on what is
lowered below it. -/
theorem property_congr {g g' : Group} (hkey : g'.key = g.key)
    (hname : g'.first.name = g.first.name) (hconditional : g'.isConditional = g.isConditional)
    (hparts : ∀ named, nested' named g'.selections = nested named g.selections) :
    property { c with fragments := fs' } place nested' t g' = property c place nested t g := by
  unfold property
  simp only [hkey, hname, hconditional, hparts]

/-- The fragments that a selection on a type spreads but that do not exist. -/
abbrev missingOf (c : Setting) (inside : List String) (t : NamedType) (l : List Selection) :
    List String :=
  missing (collect c.system c.fragments t c.spreadBound inside l)

theorem shape_eq : shape c place inside nested t l = do
    (missingOf c inside t l).forM fun name => Logged.note (.note (.unknownFragment name place))
    let properties ← (groupsOf c inside t l).mapM (property c place nested t)
    return .object (properties.filterMap id) .unset .null := rfl

/-- A shape depends only on the fragments that are missed and on the properties of the groups. -/
theorem shape_congr (hmissing : missingOf { c with fragments := fs' } inside' t l' =
      missingOf c inside t l)
    (hgroups : List.Forall₂ (fun g' g => property { c with fragments := fs' } place nested' t g' =
        property c place nested t g)
      (groupsOf { c with fragments := fs' } inside' t l') (groupsOf c inside t l)) :
    shape { c with fragments := fs' } place inside' nested' t l' =
      shape c place inside nested t l := by
  rw [shape_eq, shape_eq, hmissing, Logged.mapM_congr hgroups]

/-- Lowering a selection depends only on whether it has conditions on other types, and on its
shapes. -/
theorem selectionWithin_congr {depth depth' : Nat}
    (hnarrows : narrows fs' t.name (fs'.length + 1) inside' l' =
      narrows c.fragments t.name c.spreadBound inside l)
    (hshape : ∀ u, shape { c with fragments := fs' } place inside'
        (selectionWithin { c with fragments := fs' } place inside' depth') u l' =
      shape c place inside (selectionWithin c place inside depth) u l) :
    selectionWithin { c with fragments := fs' } place inside' (depth' + 1) t l' =
      selectionWithin c place inside (depth + 1) t l := by
  rw [selectionWithin, selectionWithin]
  simp only [Setting.spreadBound, hnarrows, hshape]
  rfl

/-! ## Depths -/

/-- **Any depth above the weights of what is selected gives the same.** -/
theorem selectionWithin_depth (hg : Grounded c.fragments) : ∀ {depth depth' : Nat} (t : NamedType)
    {l : List Selection}, 0 < depth → 0 < depth' → (∀ x ∈ l, weight c.fragments x < depth) →
      (∀ x ∈ l, weight c.fragments x < depth') →
        selectionWithin c place inside depth t l = selectionWithin c place inside depth' t l
  | 0, _, _, _, hpos, _, _, _ => absurd hpos (Nat.lt_irrefl 0)
  | _ + 1, 0, _, _, _, hpos, _, _ => absurd hpos (Nat.lt_irrefl 0)
  | depth + 1, depth' + 1, t, l, _, _, hw, hw' => by
    refine selectionWithin_congr rfl fun u => shape_congr rfl ?_
    refine List.forall₂_same.mpr fun g hgroup => ?_
    obtain ⟨hpos, hbelow⟩ := hg.lighter hw hgroup
    obtain ⟨hpos', hbelow'⟩ := hg.lighter hw' hgroup
    exact property_congr rfl rfl rfl fun named =>
      selectionWithin_depth hg named hpos hpos' hbelow hbelow'

theorem selection_eq (hg : Grounded c.fragments) {depth : Nat} (t : NamedType) {l : List Selection}
    (hdepth : depthBound c l ≤ depth) :
    selection c place inside t l = selectionWithin c place inside depth t l :=
  have hpos := depthBound_pos c l
  selectionWithin_depth hg t hpos (Nat.lt_of_lt_of_le hpos hdepth)
    (fun _ hx => weight_lt_depthBound hx)
    (fun _ hx => Nat.lt_of_lt_of_le (weight_lt_depthBound hx) hdepth)

/-! ## The same schema -/

/-- At each depth a selection is lowered as it is with its spreads inlined. -/
theorem selectionWithin_inlines (ha : Acyclic c.fragments) : ∀ (depth : Nat) (t : NamedType)
    {l l' : List Selection}, Selection.Inlines c.fragments l l' → Apart c.fragments inside l →
      selectionWithin { c with fragments := fs' } place inside' depth t l' =
        selectionWithin c place inside depth t l
  | 0, _, _, _, _, _ => by rw [selectionWithin, selectionWithin]
  | depth + 1, t, l, l', h, hin => by
    have hclear : Clear c.fragments c.spreadBound inside l := ⟨below_length _ _, hin⟩
    refine selectionWithin_congr (narrows_inlines ha h hclear _ _ _) fun u => ?_
    have hsame := collect_inlines (s := c.system) (t := u) ha h hclear fs'
      (fs'.length + 1) inside'
    obtain ⟨hnone, hnone'⟩ := missing_inlines hsame
    refine shape_congr (hnone'.trans hnone.symm) (List.Forall₂.flip ?_)
    have hgroups := (List.forall₂_and_left _ _).mpr ⟨fun _ hg => hg, group_inlines hsame⟩
    refine hgroups.imp fun g g' hg => ?_
    exact property_congr hg.2.key hg.2.first.name hg.2.isConditional_eq fun named =>
      selectionWithin_inlines ha depth named hg.2.selections (apart_selections ha hin hg.1)

/-- **Main statement on selections.** Where no fragment leads back to itself, lowering a selection
with an inline fragment in place of every spread gives the same schema or the same fault, and leaves
the same behind. This holds whatever fragments there are then, and whichever of them are open. -/
theorem selection_inlines (ha : Acyclic c.fragments) (h : Selection.Inlines c.fragments l l')
    (hin : Apart c.fragments inside l) (hg : Grounded fs') :
    selection { c with fragments := fs' } place inside' t l' = selection c place inside t l := by
  have hg' : Grounded ({ c with fragments := fs' } : Setting).fragments := hg
  rw [selection_eq hg' t (Nat.le_max_right (depthBound c l) _),
    selection_eq ha.grounded t (Nat.le_max_left _ _)]
  exact selectionWithin_inlines ha _ t h hin

end Lowering

end SchemaForge.GraphQL
