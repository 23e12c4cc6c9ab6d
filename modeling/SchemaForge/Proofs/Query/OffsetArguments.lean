import Mathlib.Data.List.Basic
import SchemaForge.Query.Arguments

/-!
# Pagination by offset among field arguments

A field that is paginated by offset has an argument for how many items to take and one for how many
to skip. There are several names for each, in any letter case.

* `Offers`: whether there is an argument of a name.
* `findName?_isSome_iff`, `reports_of_findName?`: what the search for a name finds.
* **`pagination_cases`**: the pagination by what is offered.
* `limit_eq_none_iff`, `offset_eq_none_iff`: when no argument is reported.
* **`pagination_offset`**: which arguments are reported; `pagination_mixed`: two that are not.
-/

namespace SchemaForge.Query.Arguments

open GraphQL (Input)
open Parameters (lowered)

variable {arguments : List Input} {names : List String} {name : String}

/-- Whether there is an argument of a name, in any letter case. -/
def Offers (arguments : List Input) (name : String) : Prop :=
  ∃ a ∈ arguments, lowered a.name = lowered name

instance (arguments : List Input) (name : String) : Decidable (Offers arguments name) :=
  inferInstanceAs (Decidable (∃ a ∈ arguments, _))

/-! ## The search for names -/

theorem find?_isSome_iff : (find? arguments name).isSome = true ↔ Offers arguments name := by
  simp [find?, Offers, List.find?_isSome]

theorem any_find?_iff : (names.any fun name => (find? arguments name).isSome) = true ↔
    ∃ name ∈ names, Offers arguments name := by
  simp only [List.any_eq_true, find?_isSome_iff]

/-- **A name is found** if an argument has one of the candidates. -/
theorem findName?_isSome_iff : (findName? arguments names).isSome = true ↔
    ∃ name ∈ names, Offers arguments name := by
  simp [findName?, List.findSome?_isSome_iff, find?_isSome_iff]

theorem findName?_eq_none_iff :
    findName? arguments names = none ↔ ∀ name ∈ names, ¬ Offers arguments name := by
  rw [← Option.not_isSome_iff_eq_none, findName?_isSome_iff]
  simp

/-- Whether a name is that of an argument, and one of several names in any letter case. -/
def Reports (arguments : List Input) (names : List String) (name : String) : Prop :=
  (∃ a ∈ arguments, a.name = name) ∧ ∃ candidate ∈ names, lowered name = lowered candidate

theorem Reports.mono {names' : List String} (hsub : names ⊆ names')
    (h : Reports arguments names name) : Reports arguments names' name :=
  ⟨h.1, h.2.imp fun _ hc => ⟨hsub hc.1, hc.2⟩⟩

/-- **A name that is found** is that of an argument, and one of the candidates. -/
theorem reports_of_findName? (h : findName? arguments names = some name) :
    Reports arguments names name := by
  obtain ⟨candidate, hc, h⟩ := List.exists_of_findSome?_eq_some h
  obtain ⟨a, ha, rfl⟩ := Option.map_eq_some_iff.mp h
  exact ⟨⟨a, List.mem_of_find?_eq_some ha, rfl⟩, candidate, hc, by simpa using List.find?_some ha⟩

/-! ## Pagination -/

/-- Arguments for a number of items and for the place of the first or last of them. -/
def Relays (arguments : List Input) : Prop :=
  (∃ name ∈ ["first", "last"], Offers arguments name) ∧
    ∃ name ∈ ["after", "before"], Offers arguments name

/-- **The pagination by what the arguments offer**, in the order in which it is tried. -/
theorem pagination_cases (arguments : List Input) :
    (Relays arguments ∧ pagination arguments =
        ⟨"relay", findName? arguments ["first", "last"], none, none, none⟩) ∨
      (¬ Relays arguments ∧ (∃ name ∈ ["take", "skip"], Offers arguments name) ∧
        pagination arguments = ⟨"offset", findName? arguments ["take"],
          findName? arguments ["skip"], none, none⟩) ∨
      (¬ Relays arguments ∧ (¬ ∃ name ∈ ["take", "skip"], Offers arguments name) ∧
        (∃ name ∈ limitNames ++ offsetNames, Offers arguments name) ∧
        pagination arguments = ⟨"offset", findName? arguments limitNames,
          findName? arguments offsetNames, none, none⟩) ∨
      (¬ Relays arguments ∧ (∀ name ∈ limitNames ++ offsetNames, ¬ Offers arguments name) ∧
        pagination arguments = {}) := by
  have hrelays : ((["first", "last"].any fun name => (find? arguments name).isSome) &&
      ["after", "before"].any fun name => (find? arguments name).isSome) = true ↔
        Relays arguments := by
    rw [Bool.and_eq_true, any_find?_iff, any_find?_iff]
    rfl
  have hfound : ((findName? arguments limitNames).isSome ||
      (findName? arguments offsetNames).isSome) = true ↔
        ∃ name ∈ limitNames ++ offsetNames, Offers arguments name := by
    simp only [Bool.or_eq_true, findName?_isSome_iff, List.mem_append, or_and_right, exists_or]
  unfold pagination
  dsimp only
  split
  · rename_i h
    exact .inl ⟨hrelays.mp h, rfl⟩
  · rename_i hno
    rw [hrelays] at hno
    split
    · rename_i h
      exact .inr (.inl ⟨hno, any_find?_iff.mp h, rfl⟩)
    · rename_i hpair
      rw [any_find?_iff] at hpair
      split
      · rename_i h
        exact .inr (.inr (.inl ⟨hno, hpair, hfound.mp h, rfl⟩))
      · rename_i h
        rw [hfound] at h
        exact .inr (.inr (.inr ⟨hno, fun name hn ho => h ⟨name, hn, ho⟩, rfl⟩))

/-! ## What is reported -/

/-- Pagination by offset is by the pair `take` and `skip`, if either is offered, or by any names. -/
theorem offset_cases (h : (pagination arguments).style = "offset") :
    ((Offers arguments "take" ∨ Offers arguments "skip") ∧
        (pagination arguments).limit = findName? arguments ["take"] ∧
        (pagination arguments).offset = findName? arguments ["skip"]) ∨
      (¬ Offers arguments "take" ∧ ¬ Offers arguments "skip" ∧
        (pagination arguments).limit = findName? arguments limitNames ∧
        (pagination arguments).offset = findName? arguments offsetNames) := by
  rcases pagination_cases arguments with ⟨-, hp⟩ | ⟨-, hpair, hp⟩ | ⟨-, hpair, -, hp⟩ | ⟨-, -, hp⟩ <;>
    rw [hp] at h ⊢
  · simp at h
  · exact .inl ⟨by simpa using hpair, rfl, rfl⟩
  · simp only [List.mem_cons, List.not_mem_nil, or_false, exists_eq_or_imp, exists_eq_left,
      not_or] at hpair
    exact .inr ⟨hpair.1, hpair.2, rfl, rfl⟩
  · simp at h

/-- No number of items to take is reported when none is offered, and when `skip` is offered without
`take`. -/
theorem limit_eq_none_iff (h : (pagination arguments).style = "offset") :
    (pagination arguments).limit = none ↔ ¬ Offers arguments "take" ∧
      (Offers arguments "skip" ∨ ¬ Offers arguments "limit" ∧ ¬ Offers arguments "first") := by
  rcases offset_cases h with ⟨hpair, hl, -⟩ | ⟨ht, hs, hl, -⟩ <;> rw [hl, findName?_eq_none_iff]
  · rw [List.forall_mem_singleton, iff_self_and]
    exact fun hnot => .inl (hpair.resolve_left hnot)
  · simp only [limitNames, List.forall_mem_cons]
    simp [ht, hs]

/-- No number of items to skip is reported when none is offered, and when `take` is offered without
`skip`. -/
theorem offset_eq_none_iff (h : (pagination arguments).style = "offset") :
    (pagination arguments).offset = none ↔ ¬ Offers arguments "skip" ∧
      (Offers arguments "take" ∨ ¬ Offers arguments "offset") := by
  rcases offset_cases h with ⟨hpair, -, ho⟩ | ⟨ht, hs, -, ho⟩ <;> rw [ho, findName?_eq_none_iff]
  · rw [List.forall_mem_singleton, iff_self_and]
    exact fun hnot => .inl (hpair.resolve_right hnot)
  · simp only [offsetNames, List.forall_mem_cons]
    simp [ht, hs]

theorem reports_limit (h : (pagination arguments).limit = some name) :
    Reports arguments ("last" :: limitNames) name := by
  rcases pagination_cases arguments with ⟨-, hp⟩ | ⟨-, -, hp⟩ | ⟨-, -, -, hp⟩ | ⟨-, -, hp⟩ <;>
    rw [hp] at h
  · exact (reports_of_findName? h).mono (by decide)
  · exact (reports_of_findName? h).mono (by decide)
  · exact (reports_of_findName? h).mono (List.subset_cons_self _ _)
  · cases h

theorem reports_offset (h : (pagination arguments).offset = some name) :
    Reports arguments offsetNames name := by
  rcases pagination_cases arguments with ⟨-, hp⟩ | ⟨-, -, hp⟩ | ⟨-, -, -, hp⟩ | ⟨-, -, hp⟩ <;>
    rw [hp] at h
  · cases h
  · exact (reports_of_findName? h).mono (by decide)
  · exact reports_of_findName? h
  · cases h

theorem not_offers_of_none (h : (pagination arguments).style = "none") :
    ∀ name ∈ limitNames ++ offsetNames, ¬ Offers arguments name := by
  rcases pagination_cases arguments with ⟨-, hp⟩ | ⟨-, -, hp⟩ | ⟨-, -, -, hp⟩ | ⟨-, hnone, -⟩
  · simp [hp] at h
  · simp [hp] at h
  · simp [hp] at h
  · exact hnone

/-- **Pagination by offset** passes over an argument exactly when it is of a name outside the pair
`take` and `skip`, and one of that pair is offered without the other. What is reported is the name of
an argument of its kind, and without pagination there is no argument of these names. -/
theorem pagination_offset (arguments : List Input) :
    ((pagination arguments).style = "offset" →
      (((pagination arguments).limit = none → ∀ name ∈ limitNames, ¬ Offers arguments name) ↔
        ¬ (Offers arguments "skip" ∧ ¬ Offers arguments "take" ∧
          (Offers arguments "limit" ∨ Offers arguments "first"))) ∧
      (((pagination arguments).offset = none → ∀ name ∈ offsetNames, ¬ Offers arguments name) ↔
        ¬ (Offers arguments "take" ∧ ¬ Offers arguments "skip" ∧ Offers arguments "offset"))) ∧
    (∀ name, (pagination arguments).limit = some name →
      Reports arguments ("last" :: limitNames) name) ∧
    (∀ name, (pagination arguments).offset = some name → Reports arguments offsetNames name) ∧
    ((pagination arguments).style = "none" →
      ∀ name ∈ limitNames ++ offsetNames, ¬ Offers arguments name) := by
  refine ⟨fun h => ?_, fun _ => reports_limit, fun _ => reports_offset, not_offers_of_none⟩
  have hlimit : (∀ name ∈ limitNames, ¬ Offers arguments name) ↔ ¬ Offers arguments "limit" ∧
      ¬ Offers arguments "first" ∧ ¬ Offers arguments "take" := by
    simp [limitNames]
  have hoffset : (∀ name ∈ offsetNames, ¬ Offers arguments name) ↔
      ¬ Offers arguments "offset" ∧ ¬ Offers arguments "skip" := by
    simp [offsetNames]
  rw [limit_eq_none_iff h, offset_eq_none_iff h, hlimit, hoffset]
  constructor <;> grind

/-- An argument for a number. -/
def numeric (name : String) : Input := { name, type := .named "Int" }

/-- The names of one pair, in any letter case, and a field that is not paginated. -/
theorem pagination_paired :
    (pagination [numeric "Limit", numeric "offset"]).style = "offset" ∧
      ((pagination [numeric "Limit", numeric "offset"]).limit = none →
        ∀ name ∈ limitNames, ¬ Offers [numeric "Limit", numeric "offset"] name) ∧
      ((pagination [numeric "Limit", numeric "offset"]).offset = none →
        ∀ name ∈ offsetNames, ¬ Offers [numeric "Limit", numeric "offset"] name) ∧
      (pagination [numeric "Limit", numeric "offset"]).limit = some "Limit" ∧
      (pagination [numeric "Limit", numeric "offset"]).offset = some "offset" ∧
      Reports [numeric "Limit", numeric "offset"] ("last" :: limitNames) "Limit" ∧
      Reports [numeric "Limit", numeric "offset"] offsetNames "offset" ∧
      (pagination [numeric "id"]).style = "none" ∧
      ∀ name ∈ limitNames ++ offsetNames, ¬ Offers [numeric "id"] name := by
  have hs : (pagination [numeric "Limit", numeric "offset"]).style = "offset" := by decide
  have hl : (pagination [numeric "Limit", numeric "offset"]).limit = some "Limit" := by decide
  have ho : (pagination [numeric "Limit", numeric "offset"]).offset = some "offset" := by decide
  have hnone : (pagination [numeric "id"]).style = "none" := by decide
  obtain ⟨hoffset, hlimit, hskip, -⟩ := pagination_offset [numeric "Limit", numeric "offset"]
  exact ⟨hs, (hoffset hs).1.mpr (by decide), (hoffset hs).2.mpr (by decide), hl,
    ho, hlimit _ hl, hskip _ ho, hnone, (pagination_offset [numeric "id"]).2.2.2 hnone⟩

/-- Names of two pairs: `first` is passed over beside `skip`, and `offset` beside `take`. -/
theorem pagination_mixed :
    (pagination [numeric "first", numeric "skip"]).style = "offset" ∧
      (pagination [numeric "first", numeric "skip"]).limit = none ∧
      Offers [numeric "first", numeric "skip"] "first" ∧
      (pagination [numeric "take", numeric "offset"]).style = "offset" ∧
      (pagination [numeric "take", numeric "offset"]).offset = none ∧
      Offers [numeric "take", numeric "offset"] "offset" := by
  decide

end SchemaForge.Query.Arguments
