import Mathlib
import SchemaForge.OpenApi.Document
import SchemaForge.Proofs.Value.Mapping

/-!
# Names of components

* `freeName_not_mem`: as many tries as there are taken names find a free one; `freeName_first`: it is
  the first.
* `Naming.Distinct`: no two keys have one name; **`distinct_foldl_add`**: naming keeps it.
-/

namespace SchemaForge.OpenApi

/-! ## Free names -/

theorem numbered_injective (name : String) :
    Function.Injective fun n : Nat => name ++ toString n := fun _ _ h =>
  Nat.repr_injective ((String.append_right_inj name).mp h)

/-- A name that turns out to be taken comes after as many taken names as there were tries. -/
theorem taken_of_freeName_mem {taken : List String} {name : String} : ∀ {tries suffix : Nat},
    freeName taken name tries suffix ∈ taken → ∀ i ≤ tries, name ++ toString (suffix + i) ∈ taken
  | 0, suffix, h, i, hi => by
    obtain rfl : i = 0 := Nat.le_zero.mp hi
    exact h
  | tries + 1, suffix, h, i, hi => by
    rw [freeName] at h
    split at h
    · rename_i hc
      rcases i with _ | i
      · simpa using hc
      · have := taken_of_freeName_mem h i (Nat.le_of_succ_le_succ hi)
        rwa [Nat.add_assoc, Nat.add_comm 1] at this
    · rename_i hc
      exact absurd h (by simpa using hc)

/-- **The name that is found is free.** -/
theorem freeName_not_mem (taken : List String) (name : String) (suffix : Nat) :
    freeName taken name taken.length suffix ∉ taken := by
  intro h
  have hall := taken_of_freeName_mem h
  have hd : ((List.range (taken.length + 1)).map fun i => name ++ toString (suffix + i)).Nodup :=
    List.nodup_range.map fun _ _ h => Nat.add_left_cancel (numbered_injective name h)
  have hsub :
      ((List.range (taken.length + 1)).map fun i => name ++ toString (suffix + i)) ⊆ taken := by
    intro x hx
    obtain ⟨i, hi, rfl⟩ := List.mem_map.mp hx
    exact hall i (Nat.le_of_lt_succ (List.mem_range.mp hi))
  have hle := hd.length_le_of_subset hsub
  rw [List.length_map, List.length_range] at hle
  omega

/-- **The search for a free number ends with the first one.** -/
theorem freeName_first (name : String) : ∀ (taken : List String) (tries suffix : Nat), ∃ k ≤ tries,
    freeName taken name tries suffix = name ++ toString (suffix + k) ∧
      ∀ i < k, name ++ toString (suffix + i) ∈ taken
  | taken, 0, suffix => ⟨0, Nat.le_refl 0, rfl, fun _ h => absurd h (Nat.not_lt_zero _)⟩
  | taken, tries + 1, suffix => by
    rw [freeName]
    split
    · rename_i hc
      obtain ⟨k, hk, hname, hall⟩ := freeName_first name taken tries (suffix + 1)
      refine ⟨k + 1, Nat.succ_le_succ hk, by rw [hname, Nat.add_assoc, Nat.add_comm 1], ?_⟩
      rintro (_ | i) hi
      · simpa using hc
      · have := hall i (Nat.lt_of_succ_lt_succ hi)
        rwa [Nat.add_assoc, Nat.add_comm 1] at this
    · exact ⟨0, Nat.zero_le _, rfl, fun _ h => absurd h (Nat.not_lt_zero _)⟩

/-! ## Keys and names -/

theorem lookup_setName {names : List (String × String)} {key name k : String} :
    (setName names key name).lookup k = if k = key then some name else names.lookup k := by
  induction names with
  | nil => rw [setName, lookup_cons_eq_ite]
  | cons e names ih =>
    obtain ⟨k₀, n₀⟩ := e
    rw [setName]
    by_cases hk : k₀ = key
    · rw [if_pos (by simpa using hk), lookup_cons_eq_ite, lookup_cons_eq_ite, hk]
      by_cases h : k = key
      · rw [if_pos h, if_pos h]
      · rw [if_neg h, if_neg h, if_neg h]
    · rw [if_neg (by simpa using hk), lookup_cons_eq_ite, lookup_cons_eq_ite, ih]
      by_cases h : k = k₀
      · rw [if_pos h, if_pos h, h, if_neg hk]
      · rw [if_neg h, if_neg h]

/-- Every name belongs to one key: the owners of names are listed once, and a key that has a name
owns it. -/
structure Naming.Distinct (n : Naming) : Prop where
  once : (n.owners.map (·.1)).Nodup
  owned : ∀ key name, n.names.lookup key = some name → (name, key) ∈ n.owners

/-- What `add` does: the key gets a name that nobody owns. -/
theorem Naming.add_spec (n : Naming) (key : String) : ∃ name,
    name ∉ n.owners.map (·.1) ∧ (n.add key).names = setName n.names key name ∧
      (n.add key).owners = n.owners ++ [(name, key)] := by
  rw [Naming.add]
  rcases h : n.owners.lookup (Name.typeOf key) with _ | owner
  · refine ⟨Name.typeOf key, fun hm => ?_, rfl, rfl⟩
    obtain ⟨e, he, hk⟩ := List.mem_map.mp hm
    have := List.lookup_eq_none_iff.mp h e he
    simp [hk] at this
  · refine ⟨_, ?_, rfl, rfl⟩
    have := freeName_not_mem (n.owners.map (·.1)) (Name.typeOf key) 2
    rwa [List.length_map] at this

theorem Naming.Distinct.add {n : Naming} (h : n.Distinct) (key : String) :
    (n.add key).Distinct := by
  obtain ⟨name, hn, hnames, howners⟩ := n.add_spec key
  refine ⟨?_, fun k x hk => ?_⟩
  · rw [howners, List.map_append, List.nodup_append]
    refine ⟨h.once, List.nodup_singleton _, fun a ha b hb hab => hn ?_⟩
    rw [List.map_singleton, List.mem_singleton] at hb
    exact (hab.trans hb : a = name) ▸ ha
  · rw [hnames, lookup_setName] at hk
    rw [howners, List.mem_append]
    split at hk
    · rename_i he
      cases hk
      rw [he]
      exact .inr (List.mem_singleton.mpr rfl)
    · exact .inl (h.owned k x hk)

/-- **Naming gives every key a name, and no two keys the same.** -/
theorem distinct_foldl_add (keys : List String) : ∀ n : Naming, n.Distinct →
    (keys.foldl Naming.add n).Distinct ∧
      ∀ key, key ∈ keys ∨ (n.names.lookup key).isSome →
        ((keys.foldl Naming.add n).names.lookup key).isSome := by
  induction keys with
  | nil => exact fun n h => ⟨h, fun key hk => hk.elim (by simp) id⟩
  | cons k keys ih =>
    intro n h
    obtain ⟨h₁, h₂⟩ := ih (n.add k) (h.add k)
    refine ⟨h₁, fun key hk => h₂ key ?_⟩
    obtain ⟨name, -, hnames, -⟩ := n.add_spec k
    rw [hnames, lookup_setName]
    by_cases he : key = k
    · simp [he]
    · simpa [he] using hk

/-- Naming gives a name to nothing else. -/
theorem mem_of_foldl_add (keys : List String) : ∀ (n : Naming) (key : String),
    ((keys.foldl Naming.add n).names.lookup key).isSome →
      key ∈ keys ∨ (n.names.lookup key).isSome := by
  induction keys with
  | nil => exact fun n key h => .inr h
  | cons k keys ih =>
    intro n key h
    obtain ⟨name, -, hnames, -⟩ := n.add_spec k
    have h' := ih (n.add k) key h
    rw [hnames, lookup_setName] at h'
    by_cases he : key = k
    · exact .inl (he ▸ List.mem_cons_self)
    · rw [if_neg he] at h'
      exact h'.imp_left (List.mem_cons_of_mem _)

theorem Naming.Distinct.key_eq {n : Naming} (h : n.Distinct) {k k' name : String}
    (hk : n.names.lookup k = some name) (hk' : n.names.lookup k' = some name) : k = k' := by
  have := h.once
  rw [List.nodup_map_iff_inj_on h.once.of_map] at this
  exact congrArg Prod.snd (this _ (h.owned k name hk) _ (h.owned k' name hk') rfl)

end SchemaForge.OpenApi
