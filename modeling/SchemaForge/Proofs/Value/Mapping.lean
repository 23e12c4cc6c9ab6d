import Mathlib.Data.List.Basic
import SchemaForge.Proofs.Lists
import SchemaForge.Value.Basic

/-!
# Mappings with text keys

* `sameKey_str`: a text is the same key as nothing but itself.
* `Mapping.get?_cons`, `Mapping.get?_insert`, `Mapping.get?_filter`: what is found under a text.
* `Mapping.sizeEntries_insert`, `Mapping.sizeEntries_filter_add_le`: how the number of values
  changes.
-/

namespace SchemaForge

theorem sameKey_str {a : Atom} {k : String} : a.sameKey (.str k) = true ↔ a = .str k := by
  rw [Atom.sameKey, beq_iff_eq]
  constructor
  · intro h
    cases a with
    | float d =>
      simp only [Atom.keyForm] at h
      split at h <;> cases h
    | str s => simpa [Atom.keyForm] using h
    | _ => cases h
  · rintro rfl
    rfl

namespace Mapping

variable {m : Mapping} {a : Atom} {v w : Value} {k k' : String}

/-! ## What is found -/

@[simp] theorem get?_nil : get? [] k = none := rfl

theorem get?_cons : get? ((a, v) :: m) k = if a = .str k then some v else m.get? k := by
  unfold get? find?
  rw [List.find?_cons]
  by_cases h : a = .str k
  · rw [if_pos h, sameKey_str.mpr h]
    rfl
  · have hf : a.sameKey (.str k) = false := by
      rw [Bool.eq_false_iff]
      exact fun hs => h (sameKey_str.mp hs)
    simp only [if_neg h, hf]

theorem mem_of_get? (h : m.get? k = some v) : (.str k, v) ∈ m := by
  induction m with
  | nil => cases h
  | cons e m ih =>
    obtain ⟨a, w⟩ := e
    rw [get?_cons] at h
    split at h
    · rename_i ha
      cases h
      rw [ha]
      exact List.mem_cons_self
    · exact List.mem_cons_of_mem _ (ih h)

theorem get?_of_mem (hd : (m.map (·.1)).Nodup) (h : (.str k, v) ∈ m) : m.get? k = some v := by
  induction m with
  | nil => cases h
  | cons e m ih =>
    obtain ⟨a, w⟩ := e
    rw [List.map_cons, List.nodup_cons] at hd
    rw [get?_cons]
    rcases List.mem_cons.mp h with h | h
    · cases h
      rw [if_pos rfl]
    · rw [if_neg, ih hd.2 h]
      intro ha
      exact hd.1 (List.mem_map.mpr ⟨_, h, ha.symm⟩)

theorem get?_isSome : (m.get? k).isSome ↔ .str k ∈ m.map (·.1) := by
  induction m with
  | nil => simp
  | cons e m ih =>
    obtain ⟨a, w⟩ := e
    rw [get?_cons, List.map_cons, List.mem_cons, ← ih]
    by_cases h : a = .str k
    · simp [h]
    · simp [h, Ne.symm h]

theorem getD_eq (h : m.get? k = some v) : m.getD k = v := by rw [getD, h]; rfl

theorem getD_eq_null (h : m.get? k = none) : m.getD k = .null := by rw [getD, h]; rfl

theorem insert_nil : insert [] a v = [(a, v)] := rfl

theorem insert_cons {e : Atom × Value} : insert (e :: m) a v =
    if e.1.sameKey a then (e.1, v) :: m else e :: m.insert a v := rfl

theorem get?_insert : (m.insert (.str k) v).get? k' = if k = k' then some v else m.get? k' := by
  induction m with
  | nil => simp [insert_nil, get?_cons]
  | cons e m ih =>
    obtain ⟨a, w⟩ := e
    rw [insert_cons]
    by_cases h : a = .str k
    · rw [if_pos (sameKey_str.mpr h), h, get?_cons, get?_cons]
      by_cases hk : k = k' <;> simp [hk]
    · rw [if_neg fun hs => h (sameKey_str.mp hs), get?_cons, get?_cons, ih]
      by_cases hk : k = k'
      · rw [← hk, if_neg h, if_pos rfl, if_pos rfl]
      · rw [if_neg hk, if_neg hk]

theorem mem_insert {e : Atom × Value} (h : e ∈ m.insert a v) : e.1 = a ∨ e.1 ∈ m.map (·.1) := by
  induction m with
  | nil =>
    rw [insert_nil, List.mem_singleton] at h
    exact .inl (congrArg Prod.fst h)
  | cons x m ih =>
    rw [insert_cons] at h
    rw [List.map_cons, List.mem_cons]
    split at h
    · rcases List.mem_cons.mp h with rfl | h
      · exact .inr (.inl rfl)
      · exact .inr (.inr (List.mem_map_of_mem h))
    · rcases List.mem_cons.mp h with rfl | h
      · exact .inr (.inl rfl)
      · exact (ih h).imp_right .inr

theorem get?_filter {p : Atom × Value → Bool} (h : ∀ w, p (.str k, w) = true) :
    Mapping.get? (m.filter p) k = m.get? k := by
  induction m with
  | nil => rfl
  | cons e m ih =>
    obtain ⟨a, w⟩ := e
    rw [List.filter_cons, get?_cons]
    split
    · rw [get?_cons, ih]
    · rename_i hp
      rw [ih, if_neg]
      rintro rfl
      exact hp (h w)

theorem get?_filter_none {p : Atom × Value → Bool} (h : ∀ w, p (.str k, w) = false) :
    Mapping.get? (m.filter p) k = none := by
  rw [← Option.not_isSome_iff_eq_none, get?_isSome]
  intro hk
  obtain ⟨⟨a, w⟩, hm, rfl⟩ := List.mem_map.mp hk
  exact absurd (List.mem_filter.mp hm).2 (by simp [h])

/-! ## Sizes -/

theorem sizeEntries_cons : Value.sizeEntries ((a, v) :: m) = v.size + Value.sizeEntries m := rfl

theorem size_le_sizeEntries {e : Atom × Value} (h : e ∈ m) : e.2.size ≤ Value.sizeEntries m := by
  induction m with
  | nil => cases h
  | cons x m ih =>
    obtain ⟨a, w⟩ := x
    rw [sizeEntries_cons]
    rcases List.mem_cons.mp h with rfl | h
    · exact Nat.le_add_right _ _
    · exact Nat.le_trans (ih h) (Nat.le_add_left _ _)

theorem size_le_of_get? (h : m.get? k = some v) : v.size ≤ Value.sizeEntries m :=
  size_le_sizeEntries (mem_of_get? h)

/-- Setting a key trades the size of its value. -/
theorem sizeEntries_insert : Value.sizeEntries (m.insert (.str k) v) +
    ((m.get? k).elim 0 Value.size) = Value.sizeEntries m + v.size := by
  induction m with
  | nil => simp [insert_nil, Value.sizeEntries]
  | cons e m ih =>
    obtain ⟨a, w⟩ := e
    rw [insert_cons, get?_cons, sizeEntries_cons]
    by_cases h : a = .str k
    · rw [if_pos (sameKey_str.mpr h), if_pos h, sizeEntries_cons, Option.elim_some]
      omega
    · rw [if_neg fun hs => h (sameKey_str.mp hs), if_neg h, sizeEntries_cons]
      omega

theorem sizeEntries_filter_le (p : Atom × Value → Bool) :
    Value.sizeEntries (m.filter p) ≤ Value.sizeEntries m := by
  induction m with
  | nil => exact Nat.le_refl _
  | cons e m ih =>
    obtain ⟨a, w⟩ := e
    rw [List.filter_cons, sizeEntries_cons]
    split
    · rw [sizeEntries_cons]
      omega
    · omega

/-- Leaving an entry out leaves its size out. -/
theorem sizeEntries_filter_add_le {p : Atom × Value → Bool} {e : Atom × Value} (he : e ∈ m)
    (hp : p e = false) : Value.sizeEntries (m.filter p) + e.2.size ≤ Value.sizeEntries m := by
  induction m with
  | nil => cases he
  | cons x m ih =>
    obtain ⟨a, w⟩ := x
    rw [List.filter_cons, sizeEntries_cons]
    rcases List.mem_cons.mp he with rfl | he
    · have := sizeEntries_filter_le (m := m) p
      rw [hp, if_neg (by decide)]
      exact Nat.add_comm _ _ ▸ Nat.add_le_add_left this _
    · have := ih he
      split
      · rw [sizeEntries_cons]
        omega
      · omega

end Mapping

namespace Value

theorem size_pos (v : Value) : 0 < v.size := by
  cases v <;> rw [size] <;> omega

theorem length_le_sizeItems : ∀ items : List Value, items.length ≤ sizeItems items
  | [] => Nat.le_refl _
  | v :: items => by
    have := length_le_sizeItems items
    have := v.size_pos
    rw [List.length_cons, sizeItems]
    omega

theorem size_le_sizeItems {v : Value} {items : List Value} (h : v ∈ items) :
    v.size ≤ sizeItems items := by
  induction items with
  | nil => cases h
  | cons x items ih =>
    rw [sizeItems]
    rcases List.mem_cons.mp h with rfl | h
    · exact Nat.le_add_right _ _
    · exact Nat.le_trans (ih h) (Nat.le_add_left _ _)

end Value

end SchemaForge
