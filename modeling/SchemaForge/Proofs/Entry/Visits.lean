import Mathlib.Data.Finset.Card
import Mathlib.Logic.Relation
import SchemaForge.Schema.Entry

/-!
# Visits without a bound

`Entry.visit` carries a depth. Here the same search is a relation with no bound at all, and what it
keeps is proved on the relation.

* `Visits`: the names of a list are visited one after another; `visits_foldl`: a depth above the
  number of entries is never used up.
* `Sound`: what holds of the entries placed so far. A need of a placed entry is placed before it, or
  leads back to it.
* **`Visits.sound`**: visits keep `Sound`, and the names being visited stay the same.
-/

namespace SchemaForge.Entry

open Relation

variable {entries : List Entry}

/-! ## Last entries and needs -/

theorem lastOf?_name {name : String} {e : Entry} (h : lastOf? entries name = some e) :
    e.name = name := by
  have := List.find?_some h
  simpa using this

theorem lastOf?_mem {name : String} {e : Entry} (h : lastOf? entries name = some e) :
    e ∈ entries := by
  have := List.mem_of_find?_eq_some h
  simpa using this

theorem lastOf?_isSome {name : String} :
    (lastOf? entries name).isSome ↔ name ∈ entries.map (·.name) := by
  simp [lastOf?]

theorem mem_needs {e : Entry} {name : String} :
    name ∈ needs entries e ↔ name ∈ e.dependencies ∧ (lastOf? entries name).isSome := by
  simp [needs, List.mem_mergeSort, List.mem_filter]

/-! ## The search -/

/-- The visits of a list of names, one after another, with no bound on their depth. -/
inductive Visits (entries : List Entry) : Visit → List String → Visit → Prop
  | nil (s : Visit) : Visits entries s [] s
  | passed {s t : Visit} {name : String} {rest : List String} :
    name ∈ s.seen → Visits entries s rest t → Visits entries s (name :: rest) t
  | unknown {s t : Visit} {name : String} {rest : List String} :
    name ∉ s.seen → lastOf? entries name = none → Visits entries s rest t →
      Visits entries s (name :: rest) t
  | entered {s m t : Visit} {name : String} {rest : List String} {e : Entry} :
    name ∉ s.seen → lastOf? entries name = some e →
      Visits entries { s with seen := name :: s.seen } (needs entries e) m →
      Visits entries { m with placed := m.placed ++ [e] } rest t →
      Visits entries s (name :: rest) t

namespace Visits

variable {s t u : Visit} {names : List String}

theorem seen_subset (h : Visits entries s names t) : s.seen ⊆ t.seen := by
  induction h with
  | nil => exact List.Subset.refl _
  | passed _ _ ih => exact ih
  | unknown _ _ _ ih => exact ih
  | entered _ _ _ _ ih₁ ih₂ => exact fun x hx => ih₂ (ih₁ (List.mem_cons_of_mem _ hx))

/-- The visit of every name that is an entry's has begun. -/
theorem mem_seen (h : Visits entries s names t) :
    ∀ n ∈ names, n ∈ entries.map (·.name) → n ∈ t.seen := by
  induction h with
  | nil => exact fun _ h => absurd h List.not_mem_nil
  | passed hseen hr ih => exact List.forall_mem_cons.mpr ⟨fun _ => hr.seen_subset hseen, ih⟩
  | unknown _ hnone _ ih =>
    refine List.forall_mem_cons.mpr ⟨fun hk => ?_, ih⟩
    rw [← lastOf?_isSome, hnone] at hk
    cases hk
  | entered _ _ hd hr _ ih =>
    exact List.forall_mem_cons.mpr
      ⟨fun _ => hr.seen_subset (hd.seen_subset List.mem_cons_self), ih⟩

theorem cons {name : String} (h₁ : Visits entries s [name] t) (h₂ : Visits entries t names u) :
    Visits entries s (name :: names) u := by
  cases h₁ with
  | passed hs hr => cases hr; exact .passed hs h₂
  | unknown hs hn hr => cases hr; exact .unknown hs hn h₂
  | entered hs he hd hr => cases hr; exact .entered hs he hd h₂

end Visits

/-! ## Depth -/

/-- The names of entries whose visit has not begun. -/
def unseen (entries : List Entry) (s : Visit) : Finset String :=
  (entries.map (·.name)).toFinset \ s.seen.toFinset

theorem unseen_card_le (entries : List Entry) {s t : Visit} (h : s.seen ⊆ t.seen) :
    (unseen entries t).card ≤ (unseen entries s).card := by
  refine Finset.card_le_card (Finset.sdiff_subset_sdiff (Finset.Subset.refl _) fun x hx => ?_)
  rw [List.mem_toFinset] at hx ⊢
  exact h hx

theorem unseen_card_lt {s : Visit} {name : String} (hs : name ∉ s.seen)
    (hn : name ∈ entries.map (·.name)) :
    (unseen entries { s with seen := name :: s.seen }).card < (unseen entries s).card := by
  refine Finset.card_lt_card (Finset.ssubset_iff_of_subset ?_ |>.mpr ⟨name, ?_, ?_⟩)
  · intro x hx
    simp only [unseen, Finset.mem_sdiff, List.mem_toFinset, List.mem_cons, not_or] at hx ⊢
    exact ⟨hx.1, hx.2.2⟩
  · simp only [unseen, Finset.mem_sdiff, List.mem_toFinset]
    exact ⟨hn, hs⟩
  · simp [unseen]

theorem unseen_card_le_length (s : Visit) : (unseen entries s).card ≤ entries.length := by
  calc (unseen entries s).card ≤ (entries.map (·.name)).toFinset.card :=
        Finset.card_le_card Finset.sdiff_subset
    _ ≤ (entries.map (·.name)).length := List.toFinset_card_le _
    _ = entries.length := List.length_map _

/-- **A depth above the number of unseen entries is never used up.** -/
theorem visits_foldl (entries : List Entry) : ∀ (depth : Nat) (names : List String) (s : Visit),
    (unseen entries s).card < depth →
      Visits entries s names (names.foldl (visit entries depth) s) := by
  intro depth
  induction depth with
  | zero => intro _ _ h; exact absurd h (Nat.not_lt_zero _)
  | succ depth ih =>
    intro names
    induction names with
    | nil => intro s _; exact .nil s
    | cons name rest ihn =>
      intro s h
      have step : Visits entries s [name] (visit entries (depth + 1) s name) := by
        rw [visit]
        by_cases hs : name ∈ s.seen
        · rw [if_pos (by simpa using hs)]
          exact .passed hs (.nil s)
        · rw [if_neg (by simpa using hs)]
          rcases he : lastOf? entries name with _ | e
          · exact .unknown hs he (.nil s)
          · have hn : name ∈ entries.map (·.name) := lastOf?_isSome.mp (by rw [he]; rfl)
            have hlt := unseen_card_lt hs hn
            exact .entered hs he (ih _ _ (by omega)) (.nil _)
      have hle := unseen_card_le entries step.seen_subset
      exact step.cons (ihn _ (by omega))

/-! ## What visits keep -/

/-- One name leads to another when the last entry of the first needs the second. -/
def Leads (entries : List Entry) (a b : String) : Prop :=
  ∃ e, lastOf? entries a = some e ∧ b ∈ needs entries e

/-- The visit of a name has begun and not ended. -/
def IsOpen (s : Visit) (name : String) : Prop := name ∈ s.seen ∧ name ∉ s.placed.map (·.name)

/-- What holds of the entries placed so far: each is the last of its name and stands once, and what
it needs is placed before it or leads back to it. -/
structure Sound (entries : List Entry) (s : Visit) : Prop where
  last : ∀ e ∈ s.placed, lastOf? entries e.name = some e
  nodup : (s.placed.map (·.name)).Nodup
  seen : ∀ name ∈ s.placed.map (·.name), name ∈ s.seen
  order : ∀ l₁ a l₂, s.placed = l₁ ++ a :: l₂ → ∀ b ∈ needs entries a,
    b ∈ l₁.map (·.name) ∨ TransGen (Leads entries) b a.name

theorem sound_start : Sound entries {} where
  last := by simp
  nodup := by simp
  seen := by simp
  order := by simp

/-- Beginning a visit places nothing. -/
theorem Sound.begin {s : Visit} (h : Sound entries s) (name : String) :
    Sound entries { s with seen := name :: s.seen } where
  last := h.last
  nodup := h.nodup
  seen n hn := List.mem_cons_of_mem _ (h.seen n hn)
  order := h.order

/-- Ending the visit of an entry places it behind what it needs, except for needs that lead back to
it. -/
theorem Sound.place {s : Visit} {e : Entry} (h : Sound entries s)
    (he : lastOf? entries e.name = some e) (ho : IsOpen s e.name)
    (hn : ∀ b ∈ needs entries e, b ∈ s.placed.map (·.name) ∨ TransGen (Leads entries) b e.name) :
    Sound entries { s with placed := s.placed ++ [e] } where
  last a ha := by
    rcases List.mem_append.mp ha with ha | ha
    · exact h.last a ha
    · rw [List.mem_singleton.mp ha]; exact he
  nodup := by
    rw [List.map_append, List.nodup_append]
    refine ⟨h.nodup, List.nodup_singleton _, fun a ha b hb hab => ho.2 ?_⟩
    rw [List.map_singleton, List.mem_singleton] at hb
    rwa [← hb, ← hab]
  seen name hname := by
    rw [List.map_append, List.mem_append] at hname
    rcases hname with hname | hname
    · exact h.seen name hname
    · rw [List.map_singleton, List.mem_singleton] at hname
      rw [hname]; exact ho.1
  order l₁ a l₂ hl b hb := by
    rcases List.eq_nil_or_concat l₂ with rfl | ⟨l₂', z, rfl⟩
    · obtain ⟨rfl, hae⟩ := List.append_inj' hl rfl
      obtain rfl : e = a := by simpa using hae
      exact hn b hb
    · have hl' : s.placed ++ [e] = (l₁ ++ a :: l₂') ++ [z] := by simpa using hl
      exact h.order l₁ a l₂' (List.append_inj' hl' rfl).1 b hb

/-- **What visits keep.** Every open name leads to each name that is visited next; this makes a need
that is still open one that leads back. -/
theorem Visits.sound {s t : Visit} {names : List String} (h : Visits entries s names t)
    (hs : Sound entries s)
    (hl : ∀ x, IsOpen s x → ∀ n ∈ names, TransGen (Leads entries) x n) :
    Sound entries t ∧ ∀ x, IsOpen t x ↔ IsOpen s x := by
  induction h with
  | nil s => exact ⟨hs, fun _ => Iff.rfl⟩
  | @passed s t name rest hseen hr ih =>
    exact ih hs fun x hx n hn => hl x hx n (List.mem_cons_of_mem _ hn)
  | @unknown s t name rest _ hnone _ ih =>
    exact ih hs fun x hx n hn => hl x hx n (List.mem_cons_of_mem _ hn)
  | @entered s m t name rest e hseen he hd hr ih₁ ih₂ =>
    obtain rfl : e.name = name := lastOf?_name he
    -- the open names while the needs are visited: those from before, and this one
    have hbegun : ∀ x, IsOpen { s with seen := e.name :: s.seen } x ↔ x = e.name ∨ IsOpen s x := by
      intro x
      have hp : e.name ∉ s.placed.map (·.name) := fun h => hseen (hs.seen _ h)
      simp only [IsOpen, List.mem_cons]
      constructor
      · rintro ⟨rfl | hx, hx'⟩
        · exact .inl rfl
        · exact .inr ⟨hx, hx'⟩
      · rintro (rfl | ⟨hx, hx'⟩)
        · exact ⟨.inl rfl, hp⟩
        · exact ⟨.inr hx, hx'⟩
    have hlead : ∀ x, x = e.name ∨ IsOpen s x → ∀ n ∈ needs entries e,
        TransGen (Leads entries) x n := by
      rintro x (rfl | hx) n hn
      · exact .single ⟨e, he, hn⟩
      · exact (hl x hx _ List.mem_cons_self).tail ⟨e, he, hn⟩
    obtain ⟨m₁, m₂⟩ := ih₁ (hs.begin _) fun x hx => hlead x ((hbegun x).mp hx)
    have hopen : ∀ x, IsOpen m x ↔ x = e.name ∨ IsOpen s x := fun x => (m₂ x).trans (hbegun x)
    have hplace : Sound entries { m with placed := m.placed ++ [e] } := by
      refine m₁.place he ((hopen _).mpr (.inl rfl)) fun b hb => ?_
      have hbs : b ∈ m.seen := hd.mem_seen b hb (lastOf?_isSome.mp (mem_needs.mp hb).2)
      by_cases hbp : b ∈ m.placed.map (·.name)
      · exact .inl hbp
      · rcases (hopen b).mp ⟨hbs, hbp⟩ with rfl | hbo
        · exact .inr (.single ⟨e, he, hb⟩)
        · exact .inr (hl b hbo _ List.mem_cons_self)
    have hclosed : ∀ x, IsOpen { m with placed := m.placed ++ [e] } x ↔ IsOpen s x := by
      intro x
      have hx := hopen x
      simp only [IsOpen, List.map_append, List.mem_append, List.map_singleton, List.mem_singleton,
        not_or] at hx ⊢
      constructor
      · rintro ⟨h₁, h₂, h₃⟩
        exact (hx.mp ⟨h₁, h₂⟩).resolve_left h₃
      · intro h
        obtain ⟨h₁, h₂⟩ := hx.mpr (.inr h)
        exact ⟨h₁, h₂, fun hxe => hseen (hxe ▸ h.1)⟩
    obtain ⟨t₁, t₂⟩ := ih₂ hplace fun x hx n hn =>
      hl x ((hclosed x).mp hx) n (List.mem_cons_of_mem _ hn)
    exact ⟨t₁, fun x => (t₂ x).trans (hclosed x)⟩

end SchemaForge.Entry
