import Mathlib.Data.List.Basic
import SchemaForge.OpenApi.Document
import SchemaForge.Proofs.Logged

/-!
# The language of path globs

A pattern is read from left to right, two stars before one. Each piece of it generates a part of a
path; the parts together are the path.

* `PathGlob.Generates`: the texts that a pattern generates.
* `dropSome_iff`, `spells_ofChars`: the search for parts finds them whenever there are any.
* **`PathGlob.accepts_iff`**: a pattern accepts a path when it generates the path, or the path
  without one line feed at its end.
* **`paths_kept`**: the paths of a document that pass.
-/

namespace SchemaForge.OpenApi

namespace PathGlob

/-! ## Texts that a pattern generates -/

/-- The texts that a pattern generates. A star is one of a pair if another one follows it. -/
inductive Generates : List Char → List Char → Prop
  | nil : Generates [] []
  | anyDepth {part pattern path : List Char} : '\n' ∉ part → Generates pattern path →
    Generates ('*' :: '*' :: pattern) (part ++ path)
  | anySegment {part pattern path : List Char} : pattern.head? ≠ some '*' → '/' ∉ part →
    Generates pattern path → Generates ('*' :: pattern) (part ++ path)
  | oneChar {c : Char} {pattern path : List Char} : c ≠ '/' → Generates pattern path →
    Generates ('?' :: pattern) (c :: path)
  | char {c : Char} {pattern path : List Char} : c ≠ '*' → c ≠ '?' → Generates pattern path →
    Generates (c :: pattern) (c :: path)

/-- A pattern matches what it generates, with or without one line feed at the end. -/
def Matches (pattern path : String) : Prop :=
  Generates pattern.toList path.toList ∨
    ∃ stem, path.toList = stem ++ ['\n'] ∧ Generates pattern.toList stem

/-! ## The search for parts -/

variable {pattern path : List Char} {glob : PathGlob}

/-- **A part is dropped** if there is one whose characters are of the class. -/
theorem dropSome_iff {allowed : Char → Bool} {rest : List Char → Bool} : ∀ {cs : List Char},
    Text.dropSome allowed rest cs = true ↔
      ∃ part tail, cs = part ++ tail ∧ part.all allowed ∧ rest tail = true
  | [] => by
    rw [Text.dropSome]
    constructor
    · exact fun h => ⟨[], [], rfl, rfl, h⟩
    · rintro ⟨part, tail, h, -, hrest⟩
      obtain ⟨rfl, rfl⟩ := List.append_eq_nil_iff.mp h.symm
      exact hrest
  | c :: cs => by
    rw [Text.dropSome, Bool.or_eq_true, Bool.and_eq_true, dropSome_iff]
    constructor
    · rintro (h | ⟨hc, part, tail, rfl, hpart, hrest⟩)
      · exact ⟨[], c :: cs, rfl, rfl, h⟩
      · exact ⟨c :: part, tail, rfl, by rw [List.all_cons, hc, hpart]; rfl, hrest⟩
    · rintro ⟨part, tail, h, hpart, hrest⟩
      cases part with
      | nil => exact .inl (h ▸ hrest)
      | cons d part =>
        obtain ⟨rfl, rfl⟩ := List.cons.inj h
        rw [List.all_cons, Bool.and_eq_true] at hpart
        exact .inr ⟨hpart.1, part, tail, rfl, hpart.2, hrest⟩

theorem all_ne {d : Char} {part : List Char} : part.all (· != d) = true ↔ d ∉ part := by
  rw [List.all_eq_true]
  exact ⟨fun h hm => by simpa using h d hm, fun h c hc => bne_iff_ne.mpr fun he => h (he ▸ hc)⟩

theorem spells_anyDepth : spells (.anyDepth :: glob) path = true ↔
    ∃ part tail, path = part ++ tail ∧ '\n' ∉ part ∧ spells glob tail = true := by
  simp only [spells, dropSome_iff, all_ne]

theorem spells_anySegment : spells (.anySegment :: glob) path = true ↔
    ∃ part tail, path = part ++ tail ∧ '/' ∉ part ∧ spells glob tail = true := by
  simp only [spells, dropSome_iff, all_ne]

theorem spells_oneChar : spells (.oneChar :: glob) path = true ↔
    ∃ c tail, path = c :: tail ∧ c ≠ '/' ∧ spells glob tail = true := by
  cases path <;> simp [spells]

theorem spells_char {d : Char} : spells (.char d :: glob) path = true ↔
    ∃ tail, path = d :: tail ∧ spells glob tail = true := by
  cases path <;> simp [spells]

/-! ## Reading a pattern -/

/-- **The pieces of a pattern spell what the pattern generates.** The induction is along the reading
of the pattern, so that two stars are met before one. -/
theorem spells_ofChars : spells (ofChars pattern) path = true ↔ Generates pattern path := by
  fun_induction ofChars pattern generalizing path with
  | case1 rest ih =>
    simp only [spells_anyDepth, ih]
    constructor
    · rintro ⟨part, tail, rfl, hpart, h⟩
      exact .anyDepth hpart h
    · intro h
      cases h with
      | anyDepth hpart h => exact ⟨_, _, rfl, hpart, h⟩
      | anySegment hnext => exact absurd rfl hnext
      | char hs => exact absurd rfl hs
  | case2 rest hnext ih =>
    have hhead : rest.head? ≠ some '*' := by
      rintro h
      obtain ⟨tail, rfl⟩ := List.head?_eq_some_iff.mp h
      exact hnext tail rfl
    simp only [spells_anySegment, ih]
    constructor
    · rintro ⟨part, tail, rfl, hpart, h⟩
      exact .anySegment hhead hpart h
    · intro h
      cases h with
      | anyDepth => exact absurd rfl hhead
      | anySegment _ hpart h => exact ⟨_, _, rfl, hpart, h⟩
      | char hs => exact absurd rfl hs
  | case3 rest ih =>
    simp only [spells_oneChar, ih]
    constructor
    · rintro ⟨c, tail, rfl, hc, h⟩
      exact .oneChar hc h
    · intro h
      cases h with
      | oneChar hc h => exact ⟨_, _, rfl, hc, h⟩
      | char _ hq => exact absurd rfl hq
  | case4 c rest _ hs hq ih =>
    simp only [spells_char, ih]
    constructor
    · rintro ⟨tail, rfl, h⟩
      exact .char hs hq h
    · intro h
      cases h with
      | anyDepth | anySegment => exact absurd rfl hs
      | oneChar => exact absurd rfl hq
      | char _ _ h => exact ⟨_, rfl, h⟩
  | case5 =>
    rw [spells, List.isEmpty_iff]
    constructor
    · rintro rfl
      exact .nil
    · intro h
      cases h
      rfl

/-- **A pattern accepts what it matches.** -/
theorem accepts_iff {pattern path : String} :
    (ofText pattern).accepts path = true ↔ Matches pattern path := by
  have hend : (path.toList.getLast? == some '\n' && spells (ofText pattern) path.toList.dropLast) ↔
      ∃ stem, path.toList = stem ++ ['\n'] ∧ Generates pattern.toList stem := by
    rw [Bool.and_eq_true, beq_iff_eq, List.getLast?_eq_some_iff, ← exists_and_right]
    refine exists_congr fun stem => and_congr_right fun h => ?_
    rw [h, List.dropLast_concat]
    exact spells_ofChars
  unfold accepts
  rw [Bool.or_eq_true, hend]
  exact or_congr_left spells_ofChars

instance (pattern path : String) : Decidable (Matches pattern path) :=
  decidable_of_iff _ accepts_iff

/-! ## Paths that pass -/

/-- A path passes if it is matched by some pattern to include, unless there is none, and by no
pattern to exclude. -/
def Passes (included excluded : List String) (path : String) : Prop :=
  (included = [] ∨ ∃ pattern ∈ included, Matches pattern path) ∧
    ∀ pattern ∈ excluded, ¬ Matches pattern path

theorem keeps_iff {included excluded : List String} {path : String} :
    keeps (included.map ofText) (excluded.map ofText) path = true ↔
      Passes included excluded path := by
  have hany : ∀ patterns : List String, (patterns.map ofText).any (·.accepts path) = true ↔
      ∃ pattern ∈ patterns, Matches pattern path := fun patterns => by
    simp only [List.any_map, List.any_eq_true, Function.comp_apply, accepts_iff]
  rw [keeps, Bool.and_eq_true, Bool.or_eq_true, Bool.not_eq_true', ← Bool.not_eq_true, hany, hany,
    List.isEmpty_map, List.isEmpty_iff, Passes, not_exists]
  simp only [not_and]

instance (included excluded : List String) (path : String) :
    Decidable (Passes included excluded path) :=
  decidable_of_iff _ keeps_iff

end PathGlob

open PathGlob (Generates Passes ofText)

/-- The paths of a document that pass. -/
theorem keepPaths_eq (c : Choices) (paths : List (String × Value)) :
    keepPaths c (paths.map (Prod.map .str id)) =
      .ok ((paths.filter (Passes c.included c.excluded ·.1)).map (Prod.map .str id)) := by
  unfold keepPaths
  split
  · -- without patterns no path is looked at, and every path passes
    rename_i hnone
    simp only [Bool.and_eq_true, List.isEmpty_iff] at hnone
    rw [List.filter_eq_self.mpr fun entry _ => by simp [Passes, hnone.1, hnone.2]]
  · dsimp only
    induction paths with
    | nil => rfl
    | cons entry paths ih =>
      rw [List.map_cons, List.filterMapM_cons, ih, List.filter_cons]
      by_cases h : Passes c.included c.excluded entry.1
      · simp [h, PathGlob.keeps_iff.mpr h, bind, Except.bind, pure, Except.pure, Prod.map]
      · simp [h, mt PathGlob.keeps_iff.mp h, bind, Except.bind]

/-- **Main statement.** A pattern accepts the paths that it generates, and those with one line feed
behind them. The paths that pass are kept, in order and as they are: those that some pattern to
include matches, or all if there is none, less those that some pattern to exclude matches. The same
holds of the paths of a document, with what stands under them. -/
theorem paths_kept :
    (∀ pattern path : String, (ofText pattern).accepts path = true ↔
      Generates pattern.toList path.toList ∨
        ∃ stem, path.toList = stem ++ ['\n'] ∧ Generates pattern.toList stem) ∧
    (∀ included excluded paths : List String,
      PathGlob.keep included excluded paths = paths.filter (Passes included excluded ·)) ∧
    ∀ (c : Choices) (paths : List (String × Value)),
      keepPaths c (paths.map (Prod.map .str id)) =
        .ok ((paths.filter (Passes c.included c.excluded ·.1)).map (Prod.map .str id)) := by
  refine ⟨fun _ _ => PathGlob.accepts_iff, fun included excluded paths => ?_, keepPaths_eq⟩
  refine List.filter_congr fun path _ => ?_
  rw [Bool.eq_iff_iff, PathGlob.keeps_iff, decide_eq_true_iff]

/-- A pair of stars crosses segments, the star behind it does not cross the last one. -/
example : PathGlob.keep ["/pets/***"] ["/**/photo?/*"] ["/pets", "/pets/1", "/pets/1/photos/2"] =
    ["/pets/1"] := by
  decide

end SchemaForge.OpenApi
