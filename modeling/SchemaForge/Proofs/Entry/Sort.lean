import Mathlib.Data.List.Perm.Basic
import SchemaForge.Proofs.Entry.Visits

/-!
# The order of entries

* `IsOf`: an entry was made of a schema; `IsOf.mem_dependencies`: it depends on what its schema
  refers to, but not on itself.
* `RefersTo`: an entry refers to an entry of its list, be it itself; `DependsOn`: it names it among
  its dependencies.
* `IsLast`: an entry is the last of its name in a list.
* **`sort_cycle_tolerant`**: sorting ends, keeps the last entry of each name once, and puts a
  dependency behind its dependent only around a cycle.
-/

namespace SchemaForge.Entry

open Relation

/-- The entry was made of a schema. -/
def IsOf (e : Entry) : Prop := e = Entry.of e.name e.schema e.category

theorem IsOf.mem_dependencies {e : Entry} (h : e.IsOf) {name : String} :
    name ∈ e.dependencies ↔ name ∈ e.schema.refs ∧ name ≠ e.name := by
  rw [h]
  simp [Entry.of, distinctNames]

/-- An entry refers to an entry of its list, be it itself. -/
def RefersTo (entries : List Entry) (a b : Entry) : Prop :=
  a ∈ entries ∧ b ∈ entries ∧ b.name ∈ a.schema.refs

variable {entries : List Entry}

/-- One entry of a list names another among its dependencies. -/
def DependsOn (entries : List Entry) (a b : Entry) : Prop :=
  a ∈ entries ∧ b ∈ entries ∧ b.name ∈ a.dependencies

/-- No entry of its name stands behind an entry. -/
def IsLast (entries : List Entry) (e : Entry) : Prop :=
  ∃ l₁ l₂, entries = l₁ ++ e :: l₂ ∧ e.name ∉ l₂.map (·.name)

/-! ## Names and entries -/

theorem lastOf?_eq_some_iff {e : Entry} : lastOf? entries e.name = some e ↔ IsLast entries e := by
  rw [lastOf?, List.find?_eq_some_iff_append]
  constructor
  · rintro ⟨-, as, bs, h, hn⟩
    refine ⟨bs.reverse, as.reverse, by simpa using congrArg List.reverse h, ?_⟩
    rw [List.mem_map]
    rintro ⟨x, hx, hxe⟩
    simpa [hxe] using hn x (List.mem_reverse.mp hx)
  · rintro ⟨l₁, l₂, rfl, hn⟩
    refine ⟨by simp, l₂.reverse, l₁.reverse, by simp, fun a ha => ?_⟩
    have hne : a.name ≠ e.name := fun h =>
      hn (List.mem_map.mpr ⟨a, List.mem_reverse.mp ha, h⟩)
    simpa using hne

theorem isLast_iff_mem (hd : (entries.map (·.name)).Nodup) {e : Entry} :
    IsLast entries e ↔ e ∈ entries := by
  constructor
  · rintro ⟨l₁, l₂, rfl, -⟩
    simp
  · intro he
    obtain ⟨l₁, l₂, rfl⟩ := List.append_of_mem he
    refine ⟨l₁, l₂, rfl, ?_⟩
    rw [List.map_append, List.map_cons, List.nodup_append] at hd
    exact (List.nodup_cons.mp hd.2.1).1

theorem transGen_dependsOn {a b : String} (h : TransGen (Leads entries) a b) :
    ∀ ea eb, lastOf? entries a = some ea → lastOf? entries b = some eb →
      TransGen (DependsOn entries) ea eb := by
  have edge : ∀ {x y ex ey}, Leads entries x y → lastOf? entries x = some ex →
      lastOf? entries y = some ey → DependsOn entries ex ey := by
    rintro x y ex ey ⟨e, he, hy⟩ hx hey
    obtain rfl : e = ex := Option.some.inj (he.symm.trans hx)
    exact ⟨lastOf?_mem hx, lastOf?_mem hey, (lastOf?_name hey).symm ▸ (mem_needs.mp hy).1⟩
  induction h with
  | single hab => exact fun ea eb ha hb => .single (edge hab ha hb)
  | @tail b c _ hbc ih =>
    intro ea ec ha hc
    obtain ⟨e, he⟩ : ∃ e, lastOf? entries b = some e := hbc.imp fun _ h => h.1
    exact (ih ea e ha he).tail (edge hbc he hc)

/-! ## The outcome of a sort -/

theorem visits_sort (entries : List Entry) : ∃ seen,
    Visits entries {} (entries.map (·.name)) { placed := sort entries, seen } := by
  have h := visits_foldl entries (entries.length + 1) (entries.map (·.name)) {}
    (Nat.lt_succ_of_le (unseen_card_le_length _))
  exact ⟨_, h⟩

/-- What `Sound` says of a finished sort, where no name is open any more. -/
theorem sound_sort (entries : List Entry) : ∃ seen,
    Sound entries { placed := sort entries, seen } ∧
      ∀ name ∈ entries.map (·.name), name ∈ (sort entries).map (·.name) := by
  obtain ⟨seen, h⟩ := visits_sort entries
  have hnone : ∀ x, ¬ IsOpen {} x := fun x hx => by simpa using hx.1
  obtain ⟨h₁, h₂⟩ := h.sound sound_start fun x hx => absurd hx (hnone x)
  refine ⟨seen, h₁, fun name hname => ?_⟩
  by_contra hp
  exact hnone name ((h₂ name).mp ⟨h.mem_seen name hname hname, hp⟩)

theorem nodup_sort (entries : List Entry) : ((sort entries).map (·.name)).Nodup := by
  obtain ⟨_, h, _⟩ := sound_sort entries
  exact h.nodup

theorem mem_sort {e : Entry} : e ∈ sort entries ↔ IsLast entries e := by
  obtain ⟨_, h, hall⟩ := sound_sort entries
  rw [← lastOf?_eq_some_iff]
  constructor
  · exact h.last e
  · intro he
    obtain ⟨x, hx, hxe⟩ := List.mem_map.mp (hall e.name (lastOf?_isSome.mp (by rw [he]; rfl)))
    have hx' := h.last x hx
    rw [hxe, he] at hx'
    exact Option.some.inj hx' ▸ hx

theorem sort_perm (hd : (entries.map (·.name)).Nodup) : (sort entries).Perm entries :=
  (List.perm_ext_iff_of_nodup (nodup_sort entries).of_map hd.of_map).mpr fun _ =>
    mem_sort.trans (isLast_iff_mem hd)

/-- A dependency that does not stand before its dependent leads back to it. -/
theorem sort_order {l₁ l₂ : List Entry} {a b : Entry} (hl : sort entries = l₁ ++ a :: l₂)
    (hb : b ∈ a :: l₂) (hdep : b.name ∈ a.dependencies) :
    TransGen (DependsOn entries) b a := by
  obtain ⟨_, h, -⟩ := sound_sort entries
  have hbs : b ∈ sort entries := hl ▸ List.mem_append_right _ hb
  have hal : lastOf? entries a.name = some a := h.last a (by rw [hl]; simp)
  have hbl : lastOf? entries b.name = some b := h.last b hbs
  have hneed : b.name ∈ needs entries a := mem_needs.mpr ⟨hdep, by rw [hbl]; rfl⟩
  rcases h.order l₁ a l₂ hl b.name hneed with hbefore | hback
  · -- each name is placed once, so it is not also before `a`
    have hd := h.nodup
    rw [show (Visit.mk (sort entries) _).placed = l₁ ++ a :: l₂ from hl, List.map_append,
      List.nodup_append] at hd
    exact absurd rfl (hd.2.2 _ hbefore _ (List.mem_map_of_mem hb))
  · exact transGen_dependsOn hback b a hbl hal

/-- **Sorting is a topological sort that bears with cycles.** The search needs no bound to end. What
comes out holds each name once, with its last entry. Where names are distinct it is a permutation of
what went in, in which a dependency at or behind its dependent lies on a cycle with it; so without
cycles every dependency comes strictly first. -/
theorem sort_cycle_tolerant (entries : List Entry) :
    (∃ seen, Visits entries {} (entries.map (·.name)) { placed := sort entries, seen }) ∧
    ((sort entries).map (·.name)).Nodup ∧
    (∀ name, name ∈ (sort entries).map (·.name) ↔ name ∈ entries.map (·.name)) ∧
    (∀ e, e ∈ sort entries ↔ IsLast entries e) ∧
    ((entries.map (·.name)).Nodup →
      (sort entries).Perm entries ∧
      (∀ l₁ a l₂, sort entries = l₁ ++ a :: l₂ → ∀ b ∈ a :: l₂, b.name ∈ a.dependencies →
        DependsOn entries a b ∧ TransGen (DependsOn entries) b a) ∧
      ((∀ e, ¬ TransGen (DependsOn entries) e e) →
        ∀ l₁ a l₂, sort entries = l₁ ++ a :: l₂ → ∀ b ∈ entries, b.name ∈ a.dependencies →
          b ∈ l₁)) := by
  refine ⟨visits_sort entries, nodup_sort entries, fun name => ⟨fun h => ?_, fun h => ?_⟩,
    fun _ => mem_sort, fun hd => ⟨sort_perm hd, ?_, ?_⟩⟩
  · obtain ⟨e, he, rfl⟩ := List.mem_map.mp h
    exact List.mem_map_of_mem (lastOf?_mem (lastOf?_eq_some_iff.mpr (mem_sort.mp he)))
  · obtain ⟨_, _, hall⟩ := sound_sort entries
    exact hall name h
  · intro l₁ a l₂ hl b hb hdep
    have hmem : ∀ x ∈ a :: l₂, x ∈ entries := fun x hx =>
      (sort_perm hd).mem_iff.mp (hl ▸ List.mem_append_right _ hx)
    exact ⟨⟨hmem a List.mem_cons_self, hmem b hb, hdep⟩, sort_order hl hb hdep⟩
  · intro hac l₁ a l₂ hl b hb hdep
    have ha : a ∈ entries := (sort_perm hd).mem_iff.mp (by rw [hl]; simp)
    have hbs : b ∈ l₁ ++ a :: l₂ := hl ▸ (sort_perm hd).mem_iff.mpr hb
    rcases List.mem_append.mp hbs with h | h
    · exact h
    · exact absurd ((sort_order hl h hdep).tail ⟨ha, hb, hdep⟩) (hac b)

/-! ## Entries in a chain -/

/-- Entries that need each other in a chain, dependents first, with a name that is missing. -/
def chain : List Entry := [
  { name := "Pets", schema := .never, dependencies := ["Pet", "Tag", "Gone"], category := none },
  { name := "Pet", schema := .never, dependencies := ["Gone", "Tag"], category := none },
  { name := "Tag", schema := .never, dependencies := [], category := none }]

theorem chain_acyclic (e : Entry) : ¬ TransGen (DependsOn chain) e e := by
  have edge : ∀ a b, DependsOn chain a b → b.dependencies.length < a.dependencies.length := by
    rintro a b ⟨ha, hb, hd⟩
    simp only [chain, List.mem_cons, List.not_mem_nil, or_false] at ha hb
    rcases ha with rfl | rfl | rfl <;> rcases hb with rfl | rfl | rfl <;> simp_all
  have path : ∀ {a b}, TransGen (DependsOn chain) a b →
      b.dependencies.length < a.dependencies.length := by
    intro a b h
    induction h with
    | single h => exact edge _ _ h
    | tail _ h ih => exact (edge _ _ h).trans ih
  exact fun h => lt_irrefl _ (path h)

/-- Sorted, the chain has every dependency first. -/
theorem sort_chain : (chain.map (·.name)).Nodup ∧ (∀ e, ¬ TransGen (DependsOn chain) e e) ∧
    (sort chain).Perm chain ∧
    ∀ l₁ a l₂, sort chain = l₁ ++ a :: l₂ → ∀ b ∈ chain, b.name ∈ a.dependencies → b ∈ l₁ := by
  have hd : (chain.map (·.name)).Nodup := by decide
  obtain ⟨hperm, -, hfirst⟩ := (sort_cycle_tolerant chain).2.2.2.2 hd
  exact ⟨hd, chain_acyclic, hperm, hfirst chain_acyclic⟩

end SchemaForge.Entry
