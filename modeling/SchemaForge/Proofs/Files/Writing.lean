import Mathlib.Data.List.Infix
import SchemaForge.Files.Tree
import SchemaForge.Proofs.Lists

/-!
# Files that are written

A file that is written changes what is stored at its own place and nowhere else. So files of one name
in different directories beside each other do not stand in each other's way.

* `stored?_insert`, `hasDirectory_insert`: a tree with one more file.
* `goal_of_inside`, `target_congr`: where a path leads, and what this depends on.
* `route_append`: the way along a path, one part of it after another.
* **`target_insert`**: a file that is written leaves the targets of those beside it as they are.
-/

namespace SchemaForge.Files.Tree

variable {t t' : Tree} {p : Path} {place q : Place} {text : String}

/-! ## A tree with one more file -/

theorem stored?_insert :
    (t.insert place text).stored? q = if q = place then some text else t.stored? q := by
  rw [stored?, insert, List.lookup_append, lookup_filter_key (· != place), lookup_cons_eq_ite]
  by_cases hq : q = place
  · simp [hq]
  · simp [hq, stored?]

/-- A directory is there when something is stored below it. -/
theorem hasDirectory_iff : t.hasDirectory q = true ↔
    q = [] ∨ ∃ file, (t.stored? file).isSome ∧ q <+: file ∧ q.length < file.length := by
  simp only [hasDirectory, Bool.or_eq_true, List.isEmpty_iff, List.any_eq_true, Bool.and_eq_true,
    List.isPrefixOf_iff_prefix, decide_eq_true_iff, stored?, List.lookup_isSome_iff, beq_iff_eq]
  constructor
  · rintro (h | ⟨file, hmem, hbelow⟩)
    · exact .inl h
    · exact .inr ⟨file.1, ⟨file, hmem, rfl⟩, hbelow⟩
  · rintro (h | ⟨_, ⟨file, hmem, rfl⟩, hbelow⟩)
    · exact .inl h
    · exact .inr ⟨file, hmem, hbelow⟩

/-- A file makes no directory but those above it. -/
theorem hasDirectory_insert (h : q <+: place → place.length ≤ q.length) :
    (t.insert place text).hasDirectory q = t.hasDirectory q := by
  rw [Bool.eq_iff_iff, hasDirectory_iff, hasDirectory_iff]
  refine or_congr_right (exists_congr fun file => ?_)
  rw [stored?_insert]
  by_cases hf : file = place
  · subst hf
    refine iff_of_false ?_ ?_ <;> exact fun hbelow => absurd (h hbelow.2.1) (by omega)
  · rw [if_neg hf]

/-! ## Where a path leads -/

/-- A file inside the working directory goes to the end of its path, which the path does not lead
through. -/
theorem goal_of_inside (h : t.target p = .inside place) :
    (route [] p.parts).2 = some place ∧ place ∉ (route [] p.parts).1 := by
  unfold target at h
  dsimp only at h
  split at h
  · cases h
  · split at h
    · cases h
    · split at h
      · cases h
      · rename_i goal hgoal
        split at h
        · cases h
        · rename_i hfree
          obtain rfl := Target.inside.inj h
          rw [Bool.or_eq_true, not_or, List.contains_iff_mem] at hfree
          exact ⟨hgoal, hfree.2⟩

/-- The target of a path depends on what is stored along its way and on whether a directory is at
its end. -/
theorem target_congr (hs : ∀ q ∈ (route [] p.parts).1, t'.stored? q = t.stored? q)
    (hd : ∀ q, (route [] p.parts).2 = some q → t'.hasDirectory q = t.hasDirectory q) :
    t'.target p = t.target p := by
  have hany : ((route [] p.parts).1.any fun place => (t'.stored? place).isSome) =
      (route [] p.parts).1.any fun place => (t.stored? place).isSome := by
    rw [Bool.eq_iff_iff, List.any_eq_true, List.any_eq_true]
    exact exists_congr fun q => and_congr_right fun hq => by rw [hs q hq]
  unfold target
  dsimp only
  rw [hany]
  rcases hgoal : (route [] p.parts).2 with - | goal
  · rfl
  · dsimp only
    rw [hd goal hgoal]

/-! ## The way along a path -/

theorem route_append (parts more : List String) (place : Place) :
    route place (parts ++ more) = match route place parts with
      | (passed, none) => (passed, none)
      | (passed, some goal) => (passed ++ (route goal more).1, (route goal more).2) := by
  induction parts generalizing place with
  | nil => rfl
  | cons part parts ih =>
    rw [List.cons_append, route, route]
    split
    · rfl
    · rw [ih]
      rcases route _ parts with ⟨passed, - | goal⟩ <;> rfl

section Child

variable {name file : String}

theorem parts_child : ((p.child name).child file).parts = p.parts ++ [name, file] := by
  simp [Path.child]

/-- The way to a file in a directory at the end of a path. -/
theorem route_child {goal : Place} (hgoal : (route [] p.parts).2 = some goal) (hn : name ≠ "..")
    (hf : file ≠ "..") : route [] ((p.child name).child file).parts =
      ((route [] p.parts).1 ++ [goal, goal ++ [name]], some (goal ++ [name, file])) := by
  rw [parts_child, route_append]
  rcases hr : route [] p.parts with ⟨passed, end?⟩
  rw [hr] at hgoal
  obtain rfl : end? = some goal := hgoal
  simp [route, hn, hf]

theorem exists_goal_of_child (h : (route [] ((p.child name).child file).parts).2 = some place) :
    ∃ goal, (route [] p.parts).2 = some goal := by
  rw [parts_child, route_append] at h
  rcases hr : route [] p.parts with ⟨passed, - | goal⟩
  · rw [hr] at h
    cases h
  · exact ⟨goal, rfl⟩

end Child

/-! ## Files beside each other -/

section Beside

variable {a b file : String} (ha : a ≠ "..") (hb : b ≠ "..") (hf : file ≠ "..")
  (h : t.target ((p.child a).child file) = .inside place)

include ha hb hf h

/-- **A file that is written** leaves the targets of the files of its name in other directories as
they are. -/
theorem target_insert : (t.insert place text).target ((p.child b).child file) =
    t.target ((p.child b).child file) := by
  obtain ⟨hplace, hfree⟩ := goal_of_inside h
  obtain ⟨goal, hgoal⟩ := exists_goal_of_child hplace
  rw [route_child hgoal ha hf] at hplace hfree
  obtain rfl := Option.some.inj hplace
  refine target_congr (fun q hq => ?_) fun q hq => ?_
  · rw [route_child hgoal hb hf] at hq
    rw [stored?_insert, if_neg]
    rintro rfl
    rcases List.mem_append.mp hq with hq | hq
    · exact hfree (List.mem_append_left _ hq)
    · simp at hq
  · rw [route_child hgoal hb hf] at hq
    obtain rfl := Option.some.inj hq
    exact hasDirectory_insert fun _ => by simp

/-- Files of one name in different directories go to different places. -/
theorem place_ne (hab : a ≠ b) {place' : Place}
    (h' : t.target ((p.child b).child file) = .inside place') : place ≠ place' := by
  obtain ⟨hplace, -⟩ := goal_of_inside h
  obtain ⟨hplace', -⟩ := goal_of_inside h'
  obtain ⟨goal, hgoal⟩ := exists_goal_of_child hplace
  rw [route_child hgoal ha hf] at hplace
  rw [route_child hgoal hb hf] at hplace'
  obtain rfl := Option.some.inj hplace
  obtain rfl := Option.some.inj hplace'
  simpa using hab

end Beside

end SchemaForge.Files.Tree
