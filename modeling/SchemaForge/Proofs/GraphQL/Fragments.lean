import Mathlib
import SchemaForge.GraphQL.Lowering

/-!
# Fragments without cycles

When no fragment spreads itself, directly or through others, there is a bound on how deep spreads
are nested. What a selection weighs bounds how deep fields are.

* `Acyclic`: no fragment leads back to itself.
* `rank`: how many fragments lie below a fragment; **`rank_lt`**: a spread leads to a lower rank.
* `weight`: how many fields a selection and the fragments below it hold; **`weight_le`**: it is
  bounded by all fields there are.
-/

namespace SchemaForge.GraphQL

namespace Selection

mutual

/-- The fragments that a selection spreads, at any depth. -/
def spreads : Selection → List String
  | .field _ _ _ _ selections => spreadsOfAll selections
  | .spread fragment _ => [fragment]
  | .inline _ _ selections => spreadsOfAll selections

/-- The fragments that selections spread, at any depth. -/
def spreadsOfAll : List Selection → List String
  | [] => []
  | s :: rest => spreads s ++ spreadsOfAll rest

end

theorem mem_spreadsOfAll {n : String} : ∀ {l : List Selection},
    n ∈ spreadsOfAll l ↔ ∃ s ∈ l, n ∈ s.spreads
  | [] => by simp [spreadsOfAll]
  | s :: l => by simp [spreadsOfAll, mem_spreadsOfAll]

theorem spreads_subset {s : Selection} {l : List Selection} (h : s ∈ l) :
    s.spreads ⊆ spreadsOfAll l := fun _ hn => mem_spreadsOfAll.mpr ⟨s, h, hn⟩

theorem fieldCount_le {s : Selection} {l : List Selection} (h : s ∈ l) :
    s.fieldCount ≤ fieldCountOfAll l := by
  induction l with
  | nil => cases h
  | cons x l ih =>
    rw [fieldCountOfAll]
    rcases List.mem_cons.mp h with rfl | h
    · exact Nat.le_add_right _ _
    · exact Nat.le_trans (ih h) (Nat.le_add_left _ _)

theorem name_eq_of_fragment? {fs : List Fragment} {name : String} {f : Fragment}
    (h : fragment? fs name = some f) : f.name = name := by
  simpa using List.find?_some h

theorem name_mem_of_fragment? {fs : List Fragment} {name : String} {f : Fragment}
    (h : fragment? fs name = some f) : name ∈ fs.map (·.name) :=
  name_eq_of_fragment? h ▸ List.mem_map_of_mem (List.mem_of_find?_eq_some h)

end Selection

open Selection Relation

/-- A fragment spreads another one. -/
def Spreads (fs : List Fragment) (a b : String) : Prop :=
  ∃ f, fragment? fs a = some f ∧ b ∈ spreadsOfAll f.selections

/-- Spreads depend only on the fragments that are found under names. -/
theorem spreads_congr {fs gs : List Fragment} (h : ∀ name, fragment? fs name = fragment? gs name) :
    Spreads fs = Spreads gs := by
  funext a b
  rw [Spreads, Spreads, h]

/-- No fragment leads back to itself. -/
def Acyclic (fs : List Fragment) : Prop := ∀ name, ¬ TransGen (Spreads fs) name name

variable {fs : List Fragment} {a b name : String} {f : Fragment}

theorem Acyclic.congr {gs : List Fragment} (h : Acyclic fs)
    (hfind : ∀ name, fragment? fs name = fragment? gs name) : Acyclic gs := by
  rw [Acyclic, ← spreads_congr hfind]
  exact h

/-- Fragments have no cycle where a number falls along spreads. -/
theorem acyclic_of_lt (height : String → Nat)
    (h : ∀ f ∈ fs, ∀ n ∈ spreadsOfAll f.selections, height n < height f.name) : Acyclic fs := by
  have hfalls : ∀ a b, TransGen (Spreads fs) a b → height b < height a := by
    intro a b hab
    induction hab with
    | single hstep =>
      obtain ⟨f, hf, hb⟩ := hstep
      exact name_eq_of_fragment? hf ▸ h f (List.mem_of_find?_eq_some hf) _ hb
    | tail _ hstep ih =>
      obtain ⟨f, hf, hb⟩ := hstep
      have hlt := h f (List.mem_of_find?_eq_some hf) _ hb
      rw [name_eq_of_fragment? hf] at hlt
      exact hlt.trans ih
  exact fun name hname => Nat.lt_irrefl _ (hfalls name name hname)

/-! ## Ranks -/

open Classical in
/-- The fragments below a fragment. -/
noncomputable def below (fs : List Fragment) (name : String) : Finset String :=
  (fs.map (·.name)).toFinset.filter fun m => TransGen (Spreads fs) name m

theorem mem_below {m : String} :
    m ∈ below fs name ↔ m ∈ fs.map (·.name) ∧ TransGen (Spreads fs) name m := by
  simp only [below, Finset.mem_filter, List.mem_toFinset]

/-- How many fragments lie below a fragment. -/
noncomputable def rank (fs : List Fragment) (name : String) : Nat := (below fs name).card

/-- **A fragment that is spread has a lower rank.** -/
theorem rank_lt (h : Acyclic fs) (hab : Spreads fs a b) (hb : fragment? fs b = some f) :
    rank fs b < rank fs a := by
  refine Finset.card_lt_card (Finset.ssubset_iff_of_subset ?_ |>.mpr ⟨b, ?_, ?_⟩)
  · intro m hm
    rw [mem_below] at hm ⊢
    exact ⟨hm.1, .head hab hm.2⟩
  · exact mem_below.mpr ⟨name_mem_of_fragment? hb, .single hab⟩
  · exact fun hm => h b (mem_below.mp hm).2

theorem rank_le (fs : List Fragment) (name : String) : rank fs name ≤ fs.length := by
  have hsub : below fs name ⊆ (fs.map (·.name)).toFinset :=
    fun m hm => List.mem_toFinset.mpr (mem_below.mp hm).1
  calc rank fs name ≤ (fs.map (·.name)).toFinset.card := Finset.card_le_card hsub
    _ ≤ (fs.map (·.name)).length := List.toFinset_card_le _
    _ = fs.length := List.length_map _

/-! ## Weights -/

/-- The number of fields in the fragment of a name. -/
def fieldsOf (fs : List Fragment) (name : String) : Nat :=
  (fragment? fs name).elim 0 fun f => fieldCountOfAll f.selections

open Classical in
/-- The fragments that are opened in a selection, at any depth. -/
noncomputable def opened (fs : List Fragment) (s : Selection) : Finset String :=
  (fs.map (·.name)).toFinset.filter fun m => ∃ n ∈ s.spreads, ReflTransGen (Spreads fs) n m

theorem mem_opened {s : Selection} {m : String} : m ∈ opened fs s ↔
    m ∈ fs.map (·.name) ∧ ∃ n ∈ s.spreads, ReflTransGen (Spreads fs) n m := by
  simp only [opened, Finset.mem_filter, List.mem_toFinset]

theorem opened_subset {s t : Selection} (h : s.spreads ⊆ t.spreads) :
    opened fs s ⊆ opened fs t := by
  intro m hm
  rw [mem_opened] at hm ⊢
  obtain ⟨hm, n, hn, hnm⟩ := hm
  exact ⟨hm, n, h hn, hnm⟩

/-- How many fields a selection holds, with those of the fragments that are opened in it. -/
noncomputable def weight (fs : List Fragment) (s : Selection) : Nat :=
  s.fieldCount + ∑ m ∈ opened fs s, fieldsOf fs m

theorem weight_le_of_subset {s t : Selection} (h : s.spreads ⊆ t.spreads) :
    weight fs s + t.fieldCount ≤ weight fs t + s.fieldCount := by
  have hsum : ∑ m ∈ opened fs s, fieldsOf fs m ≤ ∑ m ∈ opened fs t, fieldsOf fs m :=
    Finset.sum_le_sum_of_subset (opened_subset h)
  unfold weight
  omega

theorem sum_fieldsOf_le : ∀ fs : List Fragment,
    ∑ m ∈ (fs.map (·.name)).toFinset, fieldsOf fs m ≤
      (fs.map fun f => fieldCountOfAll f.selections).sum
  | [] => by simp
  | f :: fs => by
    have ih := sum_fieldsOf_le fs
    have hfirst : fieldsOf (f :: fs) f.name = fieldCountOfAll f.selections := by
      simp [fieldsOf, fragment?]
    have hrest : ∀ m ∈ (fs.map (·.name)).toFinset.erase f.name,
        fieldsOf (f :: fs) m = fieldsOf fs m := by
      intro m hm
      have hne : (f.name == m) = false := by
        rw [beq_eq_false_iff_ne]
        exact (Finset.ne_of_mem_erase hm).symm
      simp [fieldsOf, fragment?, hne]
    have herase : ∑ m ∈ (fs.map (·.name)).toFinset.erase f.name, fieldsOf fs m ≤
        ∑ m ∈ (fs.map (·.name)).toFinset, fieldsOf fs m :=
      Finset.sum_le_sum_of_subset (Finset.erase_subset _ _)
    have hsame : ∑ m ∈ (fs.map (·.name)).toFinset.erase f.name, fieldsOf (f :: fs) m =
        ∑ m ∈ (fs.map (·.name)).toFinset.erase f.name, fieldsOf fs m :=
      Finset.sum_congr rfl hrest
    have hsplit := Finset.add_sum_erase _ (fieldsOf (f :: fs))
      (Finset.mem_insert_self f.name (fs.map (·.name)).toFinset)
    rw [Finset.erase_insert_eq_erase, hfirst] at hsplit
    rw [List.map_cons, List.toFinset_cons, List.map_cons, List.sum_cons]
    omega

/-- **No selection weighs more than all fields there are.** -/
theorem weight_le {l : List Selection} {s : Selection} (h : s ∈ l) : weight fs s ≤
    fieldCountOfAll l + (fs.map fun f => fieldCountOfAll f.selections).sum := by
  have hcount := fieldCount_le h
  have hsum : ∑ m ∈ opened fs s, fieldsOf fs m ≤
      ∑ m ∈ (fs.map (·.name)).toFinset, fieldsOf fs m :=
    Finset.sum_le_sum_of_subset fun m hm => List.mem_toFinset.mpr (mem_opened.mp hm).1
  have hall := sum_fieldsOf_le fs
  unfold weight
  omega

end SchemaForge.GraphQL
