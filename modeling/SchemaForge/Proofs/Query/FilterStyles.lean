import Mathlib.Data.List.TakeWhile
import Mathlib.Logic.Basic
import SchemaForge.Query.Parameters

/-!
# Styles of filters among query parameters

The style of the filters is told twice: with the filters themselves, and from the names alone. The
name of a filter is then taken apart in the way of its style.

* `filterStyle?_eq`, `style_filters`, **`filterStyle?_eq_iff`**: the two styles, and when they are the
  same.
* `jsonApiField?_eq_some_iff`, `restSimple_cases`: the parts of a name.
* **`exists_field?_iff`**: the filters that have a field.
* **`styles_agree`**: both together; `styles_unclosed`: names for which they fail.
-/

namespace SchemaForge.Query.Parameters

variable {names : List String} {name style : String} {cs : List Char}

/-! ## The style of the filters -/

/-- Names that begin as a filter in brackets does. -/
def Opens (name : String) : Prop := bracketStart <+: name.toList

/-- Names that also end as a filter in brackets does. -/
def Encloses (name : String) : Prop := Opens name ∧ name.toList.getLast? = some ']'

instance (name : String) : Decidable (Opens name) := inferInstanceAs (Decidable (_ <+: _))

instance (name : String) : Decidable (Encloses name) := inferInstanceAs (Decidable (_ ∧ _))

/-- Names that are filters without brackets. -/
def IsSimple (name : String) : Prop := endsInAny name operatorEnds = true ∨ isPlain name = true

instance (name : String) : Decidable (IsSimple name) := inferInstanceAs (Decidable (_ ∨ _))

/-- The style of filters without brackets. -/
def simpleStyle? (names : List String) : Option String :=
  if ∃ n ∈ names, IsSimple n then some "rest-simple" else none

theorem simpleStyle?_ne : simpleStyle? names ≠ some "jsonapi" := by
  unfold simpleStyle?
  split <;> decide

/-- An operator is looked for before the other names. -/
theorem simpleStyle?_eq : simpleStyle? names =
    if ∃ n ∈ names, endsInAny n operatorEnds = true then some "rest-simple"
    else if ∃ n ∈ names, isPlain n = true then some "rest-simple" else none := by
  have hsimple : (∃ n ∈ names, IsSimple n) ↔
      (∃ n ∈ names, endsInAny n operatorEnds = true) ∨ ∃ n ∈ names, isPlain n = true := by
    simp only [IsSimple, and_or_left, exists_or]
  rw [simpleStyle?, if_congr hsimple rfl rfl, ite_or]

theorem opens_iff : bracketStart.isPrefixOf name.toList = true ↔ Opens name :=
  List.isPrefixOf_iff_prefix

theorem encloses_iff :
    (bracketStart.isPrefixOf name.toList && name.toList.getLast? == some ']') = true ↔
      Encloses name := by
  rw [Bool.and_eq_true, beq_iff_eq, opens_iff]
  rfl

theorem not_isEmpty_filter {p : String → Bool} :
    (!(names.filter p).isEmpty) = true ↔ ∃ n ∈ names, p n = true := by
  simp [List.filter_eq_nil_iff]

/-- The style that is told from the names alone asks whether a name opens a filter in brackets. -/
theorem filterStyle?_eq : filterStyle? names =
    if ∃ n ∈ names, Opens n then some "jsonapi" else simpleStyle? names := by
  simp only [filterStyle?, simpleStyle?_eq, List.any_eq_true, opens_iff]

/-- The style that is told with the filters asks whether a name encloses one. -/
theorem style_filters : (filters names).style =
    if ∃ n ∈ names, Encloses n then some "jsonapi" else simpleStyle? names := by
  simp only [filters, simpleStyle?_eq, not_isEmpty_filter, encloses_iff,
    apply_ite FilterCapabilities.style]

/-- **The two styles are the same** unless a name opens a filter in brackets and none encloses
one. -/
theorem filterStyle?_eq_iff : filterStyle? names = (filters names).style ↔
    ((∃ n ∈ names, Opens n) → ∃ n ∈ names, Encloses n) := by
  rw [filterStyle?_eq, style_filters]
  by_cases he : ∃ n ∈ names, Encloses n
  · have ho : ∃ n ∈ names, Opens n := he.imp fun _ h => ⟨h.1, h.2.1⟩
    rw [if_pos ho, if_pos he]
    exact iff_of_true rfl fun _ => he
  · by_cases ho : ∃ n ∈ names, Opens n
    · rw [if_pos ho, if_neg he]
      exact iff_of_false simpleStyle?_ne.symm fun h => he (h ho)
    · rw [if_neg ho, if_neg he]
      exact iff_of_true rfl fun h => absurd h ho

/-- There is a style when there are filters. -/
theorem style_eq_none_iff : (filters names).style = none ↔ (filters names).hasFiltering = false := by
  unfold filters
  dsimp only
  split_ifs <;> simp

/-- The filters are among the names; where their style is that of brackets, they enclose one. -/
theorem mem_params (h : name ∈ (filters names).params) :
    name ∈ names ∧ ((filters names).style = some "jsonapi" → Encloses name) := by
  unfold filters at h ⊢
  dsimp only at h ⊢
  split_ifs at h ⊢
  · exact ⟨(List.mem_filter.mp h).1, fun _ => encloses_iff.mp (List.mem_filter.mp h).2⟩
  · exact ⟨(List.mem_filter.mp h).1, fun hs => by simp at hs⟩
  · exact ⟨(List.mem_filter.mp h).1, fun hs => by simp at hs⟩
  · cases h

/-! ## The parts of a name -/

theorem bracket?_eq_some_iff {inner after : List Char} : bracket? cs = some (inner, after) ↔
    cs = '[' :: (inner ++ ']' :: after) ∧ inner ≠ [] ∧ ']' ∉ inner := by
  constructor
  · intro h
    unfold bracket? at h
    split at h
    · rename_i rest
      dsimp only at h
      split at h
      · rename_i tail hdrop
        split at h
        · cases h
        · rename_i hne
          cases h
          refine ⟨?_, by simpa using hne, fun hmem => ?_⟩
          · rw [← hdrop, List.takeWhile_append_dropWhile]
          · simpa using List.mem_takeWhile_imp hmem
      · cases h
    · cases h
  · rintro ⟨rfl, hne, hnot⟩
    have hall : ∀ c ∈ inner, (c != ']') = true := fun c hc =>
      bne_iff_ne.mpr fun he => hnot (he ▸ hc)
    have htake : (inner ++ ']' :: after).takeWhile (· != ']') = inner := by
      rw [List.takeWhile_append_of_pos hall]
      simp
    have hdrop : (inner ++ ']' :: after).dropWhile (· != ']') = ']' :: after := by
      rw [List.dropWhile_append_of_pos hall]
      rfl
    rw [bracket?]
    simp only [hdrop, htake]
    rw [if_neg (by simpa using hne)]

theorem afterFilter?_eq_some_iff :
    afterFilter? name = some cs ↔ name.toList = "filter".toList ++ cs := by
  unfold afterFilter?
  dsimp only
  rw [Option.ite_none_right_eq_some, List.isPrefixOf_iff_prefix, Option.some.injEq]
  constructor
  · rintro ⟨⟨rest, hrest⟩, rfl⟩
    rw [← hrest, List.drop_left]
  · intro h
    rw [h, List.drop_left]
    exact ⟨List.prefix_append _ _, rfl⟩

/-- The field of a filter in brackets is what stands between the first two of them. -/
theorem jsonApiField?_eq_some_iff {field : String} : jsonApiField? name = some field ↔
    ∃ after, name.toList = bracketStart ++ (field.toList ++ ']' :: after) ∧ field ≠ "" ∧
      ']' ∉ field.toList := by
  have hne : field ≠ "" ↔ field.toList ≠ [] := not_congr String.toList_eq_nil_iff.symm
  rw [hne]
  constructor
  · intro h
    obtain ⟨cs, hcs, h⟩ := Option.bind_eq_some_iff.mp h
    obtain ⟨⟨inner, after⟩, hb, h⟩ := Option.bind_eq_some_iff.mp h
    cases h
    obtain ⟨rfl, hinner⟩ := bracket?_eq_some_iff.mp hb
    rw [String.toList_ofList]
    exact ⟨after, afterFilter?_eq_some_iff.mp hcs, hinner⟩
  · rintro ⟨after, hname, hfield⟩
    refine Option.bind_eq_some_iff.mpr ⟨_, afterFilter?_eq_some_iff.mpr hname,
      Option.bind_eq_some_iff.mpr ⟨_, bracket?_eq_some_iff.mpr ⟨rfl, hfield⟩, ?_⟩⟩
    exact congrArg some (String.ofList_toList)

theorem operatorEnds_eq_of_isSuffix : ∀ e ∈ operatorEnds, ∀ e' ∈ operatorEnds,
    e'.toList <:+ e.toList → e' = e := by
  decide

/-- A name without brackets is its field, or a field and an operator behind it. -/
theorem restSimple_cases (name : String) :
    (∃ e ∈ operatorEnds, name = (restSimple name).1 ++ e) ∨
      (name ∉ operatorEnds ∧ (restSimple name).1 = name) := by
  unfold restSimple
  dsimp only
  split
  · rename_i e he
    refine .inl ⟨e, List.mem_of_find?_eq_some he, ?_⟩
    have hsuffix := List.find?_some he
    obtain ⟨field, hfield⟩ := List.isSuffixOf_iff_suffix.mp hsuffix
    rw [← String.toList_inj, String.toList_append, String.toList_ofList, ← hfield,
      ← String.length_toList, List.length_append, Nat.add_sub_cancel, List.take_left]
  · rename_i h
    refine .inr ⟨fun hmem => ?_, rfl⟩
    have := List.find?_eq_none.mp h name hmem
    simp at this

/-! ## Filters that have a field -/

/-- The field of a filter, by the style of the filters. -/
def field? (style name : String) : Option String :=
  if style = "jsonapi" then jsonApiField? name else some (restSimple name).1

/-- Filters without a field: nothing stands between the first brackets, or before the operator. -/
def Fieldless (style name : String) : Prop :=
  if style = "jsonapi" then "filter[]".toList <+: name.toList else name = "" ∨ name ∈ operatorEnds

instance (style name : String) : Decidable (Fieldless style name) :=
  inferInstanceAs (Decidable (ite _ _ _))

theorem jsonApiField?_of_encloses (h : Encloses name) :
    (∃ field, jsonApiField? name = some field) ↔ ¬ "filter[]".toList <+: name.toList := by
  have hempty : "filter[]".toList = bracketStart ++ [']'] := by decide
  rw [hempty]
  constructor
  · rintro ⟨field, hfield⟩ hpre
    obtain ⟨after, hname, hne, hnot⟩ := jsonApiField?_eq_some_iff.mp hfield
    rw [hname, List.prefix_append_right_inj] at hpre
    cases hcs : field.toList with
    | nil => exact hne (String.toList_eq_nil_iff.mp hcs)
    | cons c cs =>
      rw [hcs, List.cons_append, List.cons_prefix_cons] at hpre
      rw [hcs, ← hpre.1] at hnot
      exact hnot List.mem_cons_self
  · intro hpre
    obtain ⟨⟨rest, hrest⟩, hlast⟩ := h
    have hmem : ']' ∈ rest := by
      have hname := List.mem_of_getLast? hlast
      rw [← hrest, List.mem_append] at hname
      exact hname.resolve_left (by decide)
    obtain ⟨inner, after, rfl, hnot⟩ := List.eq_append_cons_of_mem hmem
    have hne : inner ≠ [] := by
      rintro rfl
      exact hpre ⟨after, by rw [← hrest, List.append_assoc]; rfl⟩
    refine ⟨String.ofList inner, jsonApiField?_eq_some_iff.mpr ⟨after, ?_, ?_, ?_⟩⟩
    · rw [String.toList_ofList, hrest]
    · rwa [ne_eq, ← String.toList_eq_nil_iff, String.toList_ofList]
    · rwa [String.toList_ofList]

theorem restSimple_ne_empty : (restSimple name).1 ≠ "" ↔ ¬ (name = "" ∨ name ∈ operatorEnds) := by
  rcases restSimple_cases name with ⟨e, he, hname⟩ | ⟨hnot, heq⟩
  · constructor
    · rintro hne (rfl | hmem)
      · exact hne (String.append_eq_empty_iff.mp hname.symm).1
      · have hsuffix : e.toList <:+ name.toList :=
          ⟨(restSimple name).1.toList, by rw [← String.toList_append, ← hname]⟩
        have hself := congrArg String.toList hname
        rw [operatorEnds_eq_of_isSuffix name hmem e he hsuffix, String.toList_append] at hself
        exact hne (String.toList_eq_nil_iff.mp (List.self_eq_append_left.mp hself))
    · intro hnot hempty
      rw [hempty, String.empty_append] at hname
      exact hnot (.inr (hname ▸ he))
  · rw [heq]
    simp [hnot]

/-- **The filters that have a field**: those that are not without one. -/
theorem exists_field?_iff (hs : (filters names).style = some style)
    (hn : name ∈ (filters names).params) :
    (∃ field, field? style name = some field ∧ field ≠ "") ↔ ¬ Fieldless style name := by
  by_cases hj : style = "jsonapi"
  · subst hj
    simp only [field?, Fieldless, if_true, ← jsonApiField?_of_encloses ((mem_params hn).2 hs)]
    refine exists_congr fun field => and_iff_left_of_imp fun h => ?_
    exact (jsonApiField?_eq_some_iff.mp h).choose_spec.2.1
  · simp only [field?, Fieldless, if_neg hj, ← restSimple_ne_empty, Option.some.injEq,
      exists_eq_left']

/-- **The two styles agree** unless a name opens a filter in brackets and none encloses one. There is
a style when there are filters; these are among the names, and the way of the style finds a field in
each that is not without one. -/
theorem styles_agree (names : List String) :
    (filterStyle? names = (filters names).style ↔
      ((∃ n ∈ names, Opens n) → ∃ n ∈ names, Encloses n)) ∧
    ((filters names).style = none ↔ (filters names).hasFiltering = false) ∧
    ∀ style, (filters names).style = some style → ∀ n ∈ (filters names).params, n ∈ names ∧
      ((∃ field, field? style n = some field ∧ field ≠ "") ↔ ¬ Fieldless style n) :=
  ⟨filterStyle?_eq_iff, style_eq_none_iff, fun _ hs _ hn =>
    ⟨(mem_params hn).1, exists_field?_iff hs hn⟩⟩

/-- Filters in brackets, with and without an operator. -/
theorem styles_prices :
    filterStyle? ["filter[price][gte]", "sort", "filter[name]"] = some "jsonapi" ∧
      (filters ["filter[price][gte]", "sort", "filter[name]"]).style = some "jsonapi" ∧
      ∃ field, field? "jsonapi" "filter[price][gte]" = some field ∧ field ≠ "" := by
  have hs : (filters ["filter[price][gte]", "sort", "filter[name]"]).style = some "jsonapi" := by
    decide
  obtain ⟨hagree, -, hfield⟩ := styles_agree ["filter[price][gte]", "sort", "filter[name]"]
  refine ⟨(hagree.mpr ?_).trans hs, hs, ((hfield _ hs "filter[price][gte]" ?_).2).mpr ?_⟩
  · exact fun _ => ⟨"filter[name]", by decide, by decide⟩
  · decide
  · decide

/-- A bracket that stays open: the style is told from the name alone, but there is no filter. An
empty field and a lone operator are filters without a field. -/
theorem styles_unclosed :
    filterStyle? ["filter[price"] ≠ (filters ["filter[price"]).style ∧
      (filters ["filter[]"]).style = some "jsonapi" ∧ "filter[]" ∈ (filters ["filter[]"]).params ∧
      field? "jsonapi" "filter[]" = none ∧
      (filters ["_eq"]).style = some "rest-simple" ∧ "_eq" ∈ (filters ["_eq"]).params ∧
      field? "rest-simple" "_eq" = some "" := by
  decide

end SchemaForge.Query.Parameters
