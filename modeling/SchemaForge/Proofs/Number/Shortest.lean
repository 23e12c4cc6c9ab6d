import Mathlib.Algebra.Order.Field.Power
import Mathlib.Data.List.TakeWhile
import Mathlib.Data.Rat.Cast.Order
import Mathlib.Tactic.Linarith
import SchemaForge.Number.Shortest

/-!
# Shortest decimal texts

The first grid that is tried has its step below the first digit of a double, so the digits of the
text are never all zero.

* `pointPlace_le`: a quotient reaches the place of its first digit.
* `gridPoint_pos`, `shortest_pos`: the digits that are found are a positive number.
* **`Double.text_ne_empty`**: every double has a text.
-/

namespace SchemaForge.Double

/-! ## Powers of ten -/

theorem mul_zpow_le {a b : Nat} (e : Int) : (a : ℚ) * 10 ^ e ≤ b ↔
    if e < 0 then a ≤ b * Nat.pow 10 e.natAbs else a * Nat.pow 10 e.natAbs ≤ b := by
  rcases lt_or_ge e 0 with h | h
  · obtain ⟨n, rfl⟩ : ∃ n : Nat, e = -n := ⟨e.natAbs, by omega⟩
    rw [if_pos h, Int.natAbs_neg, Int.natAbs_natCast, zpow_neg, ← div_eq_mul_inv,
      div_le_iff₀ (by positivity), zpow_natCast]
    exact_mod_cast Iff.rfl
  · obtain ⟨n, rfl⟩ : ∃ n : Nat, e = n := ⟨e.natAbs, by omega⟩
    rw [if_neg (by omega), Int.natAbs_natCast, zpow_natCast]
    exact_mod_cast Iff.rfl

theorem lt_pow_digitCount (n : Nat) : (n : ℚ) < 10 ^ (digitCount n : Int) := by
  have h : n < 10 ^ digitCount n :=
    (Nat.length_toDigits_le_iff (by decide) Nat.length_toDigits_pos).mp le_rfl
  rw [zpow_natCast]
  exact_mod_cast h

theorem pow_digitCount_le {n : Nat} (h : 0 < n) : (10 : ℚ) ^ ((digitCount n : Int) - 1) ≤ n := by
  have hpos : 0 < digitCount n := Nat.length_toDigits_pos
  obtain ⟨k, hk⟩ : ∃ k, digitCount n = k + 1 := ⟨digitCount n - 1, by omega⟩
  have hle : 10 ^ k ≤ n := by
    rcases Nat.eq_zero_or_pos k with rfl | hk'
    · exact h
    · by_contra hlt
      have := (Nat.length_toDigits_le_iff (b := 10) (by decide) hk').mpr (not_le.mp hlt)
      rw [digitCount] at hk
      omega
  rw [hk, Nat.cast_add, Nat.cast_one, add_sub_cancel_right, zpow_natCast]
  exact_mod_cast hle

/-- A quotient reaches the place of its first digit. -/
theorem pointPlace_le {num den : Nat} (hn : 0 < num) :
    (den : ℚ) * 10 ^ (pointPlace num den - 1) ≤ num := by
  by_cases h : (den : ℚ) * 10 ^ ((digitCount num : Int) - digitCount den) ≤ num
  · have hplace : pointPlace num den = digitCount num - digitCount den + 1 :=
      if_pos ((mul_zpow_le _).mp h)
    rwa [hplace, add_sub_cancel_right]
  · have hplace : pointPlace num den = digitCount num - digitCount den :=
      if_neg fun hreaches => h ((mul_zpow_le _).mpr hreaches)
    have hden := (lt_pow_digitCount den).le
    calc (den : ℚ) * 10 ^ (pointPlace num den - 1)
        ≤ 10 ^ (digitCount den : Int) * 10 ^ (pointPlace num den - 1) := by gcongr
      _ = 10 ^ ((digitCount num : Int) - 1) := by
          rw [← zpow_add₀ (by norm_num), hplace]
          congr 1
          omega
      _ ≤ num := pow_digitCount_le hn

/-! ## Grids -/

variable {even : Bool} {low value high den digits : Nat} {place point : Int}

theorem gridPoint_pos (hd : 0 < den) (hv : (den : ℚ) * 10 ^ place ≤ value)
    (h : gridPoint even low value high den place = some digits) : 0 < digits := by
  rw [mul_zpow_le] at hv
  unfold gridPoint at h
  split at hv
  · rename_i hp
    have hbelow : 0 < value * Nat.pow 10 place.natAbs / den := Nat.div_pos hv hd
    simp only [if_pos hp] at h
    split at h
    · split at h <;> cases h <;> omega
    · cases h
      exact hbelow
    · cases h
      exact Nat.succ_pos _
    · cases h
  · rename_i hp
    have hscale : 0 < den * Nat.pow 10 place.natAbs := Nat.mul_pos hd (Nat.pow_pos (by decide))
    have hbelow : 0 < value / (den * Nat.pow 10 place.natAbs) := Nat.div_pos hv hscale
    simp only [if_neg hp] at h
    split at h
    · split at h <;> cases h <;> omega
    · cases h
      exact hbelow
    · cases h
      exact Nat.succ_pos _
    · cases h

theorem firstGrid_pos (hd : 0 < den) (hv : (den : ℚ) * 10 ^ (point - 1) ≤ value) :
    ∀ counts : List Nat, (∀ count ∈ counts, 0 < count) →
      firstGrid even low value high den point counts = (0, 0) ∨
        0 < (firstGrid even low value high den point counts).1
  | [], _ => .inl rfl
  | count :: counts, h => by
    rw [List.forall_mem_cons] at h
    rw [firstGrid]
    split
    · rename_i digits hgrid
      refine .inr (gridPoint_pos hd (le_trans ?_ hv) hgrid)
      have hpower : (10 : ℚ) ^ (point - count) ≤ 10 ^ (point - 1) :=
        zpow_le_zpow_right₀ (by norm_num) (by omega)
      gcongr
    · exact firstGrid_pos hd hv counts h.2

theorem fraction_pos {mantissa : Nat} (h : mantissa ≠ 0) (exponent : Int) :
    0 < (fraction mantissa exponent).1 ∧ 0 < (fraction mantissa exponent).2 := by
  have hpower : ∀ n, 0 < Nat.pow 2 n := fun n => Nat.pow_pos (by decide)
  unfold fraction
  split
  · exact ⟨Nat.pos_of_ne_zero h, hpower _⟩
  · exact ⟨Nat.mul_pos (Nat.pos_of_ne_zero h) (hpower _), Nat.one_pos⟩

/-- The digits that are found for a number other than zero are a positive number. -/
theorem shortest_pos {mantissa : Nat} (h : mantissa ≠ 0) (exponent : Int) :
    shortest mantissa exponent = (0, 0) ∨ 0 < (shortest mantissa exponent).1 := by
  obtain ⟨hnum, hden⟩ := fraction_pos h exponent
  have hvalue : ((4 * (fraction mantissa exponent).2 : Nat) : ℚ) * 10 ^ (pointPlace
      (fraction mantissa exponent).1 (fraction mantissa exponent).2 - 1) ≤
        (4 * (fraction mantissa exponent).1 : Nat) := by
    have hpoint : ((fraction mantissa exponent).2 : ℚ) * 10 ^ (pointPlace
        (fraction mantissa exponent).1 (fraction mantissa exponent).2 - 1) ≤
          (fraction mantissa exponent).1 := pointPlace_le hnum
    push_cast
    linarith
  exact firstGrid_pos (Nat.mul_pos (by decide) hden) hvalue _
    (List.forall_mem_map.mpr fun n _ => Nat.succ_pos n)

/-! ## Texts -/

theorem exists_digit_ne_zero : ∀ {n : Nat}, 0 < n → ∃ c ∈ Nat.toDigits 10 n, c ≠ '0' := by
  intro n
  induction n using Nat.strongRecOn with
  | ind n ih =>
    intro hn
    rcases Nat.lt_or_ge n 10 with h | h
    · exact ⟨n.digitChar, by simp [Nat.toDigits_of_lt_base h], mt Nat.digitChar_eq_zero.mp hn.ne'⟩
    · obtain ⟨c, hc, hne⟩ := ih (n / 10) (Nat.div_lt_self hn (by decide)) (by omega)
      rw [Nat.toDigits_of_base_le (by decide) h]
      exact ⟨c, List.mem_append_left _ hc, hne⟩

theorem trimZeros_ne_nil {digits : List Char} (h : ∃ c ∈ digits, c ≠ '0') :
    trimZeros digits ≠ [] := by
  rw [trimZeros, Ne, List.reverse_eq_nil_iff, List.dropWhile_eq_nil_iff]
  obtain ⟨c, hc, hne⟩ := h
  exact fun hall => hne (by simpa using hall c (List.mem_reverse.mpr hc))

theorem layout_ne_nil {digits : List Char} {point : Int} (h : digits ≠ [] ∨ point = 1) :
    layout digits point ≠ [] := by
  unfold layout
  split
  · split
    · exact List.cons_ne_nil _ _
    · dsimp only
      split
      · simp
      · simp
  · rename_i hfar
    cases digits with
    | nil =>
      rcases h with h | rfl
      · exact absurd rfl h
      · exact absurd (by decide) hfar
    | cons first rest => exact List.append_ne_nil_of_right_ne_nil _ (List.cons_ne_nil _ _)

/-- **Every double has a text.** -/
theorem text_ne_empty (d : Double) : d.text ≠ "" := by
  cases d with
  | nan => decide
  | infinite negative => cases negative <;> decide
  | finite negative mantissa exponent =>
    have hmagnitude : (if mantissa = 0 then ['0', '.', '0'] else
        layout (trimZeros (Nat.toDigits 10 (shortest mantissa exponent).1))
          ((shortest mantissa exponent).2 +
            (Nat.toDigits 10 (shortest mantissa exponent).1).length)) ≠ [] := by
      split
      · exact List.cons_ne_nil _ _
      · rename_i h
        refine layout_ne_nil ?_
        rcases shortest_pos h exponent with hnone | hpos
        · rw [hnone]
          exact .inr rfl
        · exact .inl (trimZeros_ne_nil (exists_digit_ne_zero hpos))
    rw [text, Ne, String.ofList_eq_empty_iff]
    cases negative with
    | true => exact List.cons_ne_nil _ _
    | false => exact hmagnitude

end SchemaForge.Double
