import Mathlib.Data.List.Forall2

/-!
# Lists

* `exists_of_mem_left`, `exists_of_mem_right`: in lists that are related item by item, every item
  has a related one; `exists_forall₂`: the converse.
* `lookup_cons_eq_ite`, `lookup_filter_key`: what stands under a key in a list with one more entry,
  and among the keys that pass a test.
* `eq_of_pairs`: no two items of a list without repeats stand in both orders.
* `Similar`: the same items occur in two lists, and they do so for the first time in the same order.
-/

namespace SchemaForge

variable {α β : Type} {R : α → β → Prop}

/-! ## Item by item -/

theorem exists_of_mem_left {l : List α} {bs : List β} (h : List.Forall₂ R l bs) {a : α}
    (ha : a ∈ l) : ∃ b ∈ bs, R a b := by
  induction h with
  | nil => cases ha
  | cons hr _ ih =>
    rcases List.mem_cons.mp ha with rfl | ha
    · exact ⟨_, List.mem_cons_self, hr⟩
    · obtain ⟨b, hb, hr⟩ := ih ha
      exact ⟨b, List.mem_cons_of_mem _ hb, hr⟩

theorem exists_of_mem_right {l : List α} {bs : List β} (h : List.Forall₂ R l bs) {b : β}
    (hb : b ∈ bs) : ∃ a ∈ l, R a b :=
  exists_of_mem_left h.flip hb

/-- Where every item has a related one, so has the list. -/
theorem exists_forall₂ {R : α → β → Prop} {l : List α} (h : ∀ a ∈ l, ∃ b, R a b) :
    ∃ bs, List.Forall₂ R l bs := by
  induction l with
  | nil => exact ⟨[], .nil⟩
  | cons a l ih =>
    rw [List.forall_mem_cons] at h
    obtain ⟨⟨b, hb⟩, h⟩ := h
    obtain ⟨bs, hbs⟩ := ih h
    exact ⟨b :: bs, .cons hb hbs⟩

/-! ## Keys -/

theorem lookup_cons_eq_ite {κ : Type} [BEq κ] [LawfulBEq κ] [DecidableEq κ] {k k' : κ} {x : α}
    {l : List (κ × α)} :
    List.lookup k ((k', x) :: l) = if k = k' then some x else l.lookup k := by
  rw [List.lookup_cons]
  by_cases h : k = k'
  · rw [if_pos h, h, beq_self_eq_true]
  · rw [if_neg h, beq_false_of_ne h]

/-- What stands under the keys that pass a test. -/
theorem lookup_filter_key {κ : Type} [BEq κ] [LawfulBEq κ] [DecidableEq κ] (test : κ → Bool) (k : κ)
    (l : List (κ × α)) : (l.filter fun entry => test entry.1).lookup k =
      if test k then l.lookup k else none := by
  induction l with
  | nil => simp
  | cons entry l ih =>
    obtain ⟨key, x⟩ := entry
    rw [List.filter_cons, apply_ite (List.lookup k), lookup_cons_eq_ite, lookup_cons_eq_ite, ih]
    by_cases hk : k = key
    · rw [if_pos hk, if_pos hk, hk]
      split <;> rfl
    · rw [if_neg hk, if_neg hk, ite_self]

/-! ## Order of two items -/

theorem eq_of_pairs {a b : α} {l : List α} (hd : l.Nodup) (hab : [a, b].Sublist l)
    (hba : [b, a].Sublist l) : a = b := by
  induction l with
  | nil => cases hab
  | cons x l ih =>
    obtain ⟨hx, hd⟩ := List.nodup_cons.mp hd
    cases hab with
    | cons _ hab =>
      cases hba with
      | cons _ hba => exact ih hd hab hba
      | cons_cons => exact absurd (hab.subset (by simp)) hx
    | cons_cons =>
      cases hba with
      | cons _ hba => exact absurd (hba.subset (by simp)) hx
      | cons_cons => rfl

/-! ## By first occurrences -/

/-- No search tells two lists apart: the same items occur, in the order of their first
occurrences. -/
def Similar (l₁ l₂ : List α) : Prop :=
  ∀ (γ : Type) (f : α → Option γ), l₁.findSome? f = l₂.findSome? f

namespace Similar

variable {l₁ l₂ l₃ k₁ k₂ : List α}

theorem refl (l : List α) : Similar l l := fun _ _ => rfl

theorem symm (h : Similar l₁ l₂) : Similar l₂ l₁ := fun γ f => (h γ f).symm

theorem trans (h : Similar l₁ l₂) (h' : Similar l₂ l₃) : Similar l₁ l₃ :=
  fun γ f => (h γ f).trans (h' γ f)

theorem append (h : Similar l₁ l₂) (h' : Similar k₁ k₂) : Similar (l₁ ++ k₁) (l₂ ++ k₂) := by
  intro γ f
  rw [List.findSome?_append, List.findSome?_append, h γ f, h' γ f]

/-- Items that occurred before do not matter. -/
theorem absorb {l k : List α} (h : k ⊆ l) : Similar (l ++ k) l := by
  intro γ f
  rw [List.findSome?_append]
  rcases hf : l.findSome? f with _ | c
  · rw [Option.none_or, List.findSome?_eq_none_iff]
    exact fun x hx => List.findSome?_eq_none_iff.mp hf x (h hx)
  · rfl

theorem mem_iff (h : Similar l₁ l₂) {a : α} : a ∈ l₁ ↔ a ∈ l₂ := by
  classical
  let test : α → Option Unit := fun x => if x = a then some () else none
  have hfind : ∀ l : List α, (l.findSome? test).isSome ↔ a ∈ l :=
    fun l => by simp [test, List.findSome?_isSome_iff]
  rw [← hfind, ← hfind, h Unit]

theorem find?_eq (h : Similar l₁ l₂) (p : α → Bool) : l₁.find? p = l₂.find? p := by
  rw [List.find?_eq_findSome?_guard, List.find?_eq_findSome?_guard, h]

theorem map (h : Similar l₁ l₂) (f : α → β) : Similar (l₁.map f) (l₂.map f) := by
  intro γ g
  rw [List.findSome?_map, List.findSome?_map, h]

theorem findSome?_flatMap {γ : Type} (f : α → List β) (g : β → Option γ) :
    ∀ l : List α, (l.flatMap f).findSome? g = l.findSome? fun x => (f x).findSome? g
  | [] => rfl
  | a :: l => by
    rw [List.flatMap_cons, List.findSome?_append, findSome?_flatMap f g l, List.findSome?_cons]
    rcases (f a).findSome? g with _ | c <;> rfl

theorem flatMap (h : Similar l₁ l₂) (f : α → List β) : Similar (l₁.flatMap f) (l₂.flatMap f) := by
  intro γ g
  rw [findSome?_flatMap, findSome?_flatMap, h]

theorem filter (h : Similar l₁ l₂) (p : α → Bool) : Similar (l₁.filter p) (l₂.filter p) := by
  have hfilter : ∀ l : List α, l.filter p = l.flatMap fun x => if p x then [x] else [] :=
    fun l => by
      induction l with
      | nil => rfl
      | cons a l ih =>
        rw [List.filter_cons, List.flatMap_cons, ← ih]
        by_cases hp : p a = true <;> simp [hp]
  rw [hfilter, hfilter]
  exact h.flatMap _

end Similar

end SchemaForge
