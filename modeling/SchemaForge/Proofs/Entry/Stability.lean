import SchemaForge.Proofs.Entry.Sort
import SchemaForge.Proofs.Lists

/-!
# What sorting moves

Sorting visits the entries in their order, and a visit from outside places all that an entry leads
to, also around cycles. So an entry moves forward only where one that stood before it leads to it.

* `Settled`: the search between two visits from outside; `Settled.reaches`: what a placed entry
  leads to is placed.
* `sort_segment`: what the first entries lead to stands first.
* `sort_pair`: two entries stay in their order unless an earlier entry leads to the second.
* **`sort_stable`**: sorting moves no more than that, nothing in a list that is in order, and
  nothing the second time.
-/

namespace SchemaForge.Entry

open Relation

variable {entries : List Entry} {s t : Visit} {names : List String}

/-! ## What visits place -/

/-- The last entry of a name leads to an entry, along dependencies or as the entry itself. -/
def ReachedFrom (entries : List Entry) (name : String) (e : Entry) : Prop :=
  ∃ a, lastOf? entries name = some a ∧ ReflTransGen (DependsOn entries) a e

theorem ReachedFrom.needed {a e : Entry} {name : String} (h : ReachedFrom entries name e)
    (ha : a ∈ entries) (hn : name ∈ needs entries a) : ReflTransGen (DependsOn entries) a e := by
  obtain ⟨b, hb, hpath⟩ := h
  exact .head ⟨ha, lastOf?_mem hb, (lastOf?_name hb).symm ▸ (mem_needs.mp hn).1⟩ hpath

/-- **Visits place what the visited names lead to**, behind what is there. -/
theorem Visits.placed (h : Visits entries s names t) :
    ∃ more, t.placed = s.placed ++ more ∧ ∀ e ∈ more, ∃ n ∈ names, ReachedFrom entries n e := by
  induction h with
  | nil => exact ⟨[], (List.append_nil _).symm, nofun⟩
  | passed _ _ ih | unknown _ _ _ ih =>
    obtain ⟨more, hmore, hfrom⟩ := ih
    refine ⟨more, hmore, fun e he => ?_⟩
    obtain ⟨n, hn, hreached⟩ := hfrom e he
    exact ⟨n, List.mem_cons_of_mem _ hn, hreached⟩
  | @entered s m t name rest a _ ha _ _ ih₁ ih₂ =>
    obtain ⟨inner, hinner, hfrom₁⟩ := ih₁
    obtain ⟨more, hmore, hfrom₂⟩ := ih₂
    refine ⟨inner ++ [a] ++ more, ?_, fun e he => ?_⟩
    · rw [hmore, hinner]
      simp only [List.append_assoc]
    · rcases List.mem_append.mp he with he | he
      · refine ⟨name, List.mem_cons_self, a, ha, ?_⟩
        rcases List.mem_append.mp he with he | he
        · obtain ⟨n, hn, hreached⟩ := hfrom₁ e he
          exact hreached.needed (lastOf?_mem ha) hn
        · rw [List.mem_singleton.mp he]
      · obtain ⟨n, hn, hreached⟩ := hfrom₂ e he
        exact ⟨n, List.mem_cons_of_mem _ hn, hreached⟩

theorem Visits.split : ∀ {first : List String} {s : Visit}, Visits entries s (first ++ names) t →
    ∃ m, Visits entries s first m ∧ Visits entries m names t
  | [], s, h => ⟨s, .nil s, h⟩
  | _ :: _, _, .passed hs hr =>
    let ⟨m, h₁, h₂⟩ := hr.split
    ⟨m, .passed hs h₁, h₂⟩
  | _ :: _, _, .unknown hs hn hr =>
    let ⟨m, h₁, h₂⟩ := hr.split
    ⟨m, .unknown hs hn h₁, h₂⟩
  | _ :: _, _, .entered hs he hd hr =>
    let ⟨m, h₁, h₂⟩ := hr.split
    ⟨m, .entered hs he hd h₁, h₂⟩

/-- The needs of every placed entry have been seen. -/
def NeedsSeen (entries : List Entry) (s : Visit) : Prop :=
  ∀ a ∈ s.placed, ∀ b ∈ needs entries a, b ∈ s.seen

theorem Visits.needsSeen (h : Visits entries s names t) (hs : NeedsSeen entries s) :
    NeedsSeen entries t := by
  induction h with
  | nil => exact hs
  | passed _ _ ih | unknown _ _ _ ih => exact ih hs
  | @entered s m t name rest a _ _ hd _ ih₁ ih₂ =>
    have hm : NeedsSeen entries m := ih₁ fun x hx b hb => List.mem_cons_of_mem _ (hs x hx b hb)
    refine ih₂ fun x hx b hb => ?_
    rcases List.mem_append.mp hx with hx | hx
    · exact hm x hx b hb
    · rw [List.mem_singleton.mp hx] at hb
      exact hd.mem_seen b hb (lastOf?_isSome.mp (mem_needs.mp hb).2)

/-! ## Between visits from outside -/

/-- The search between two visits from outside: no visit is open, and all needs have been seen. -/
structure Settled (entries : List Entry) (s : Visit) : Prop where
  sound : Sound entries s
  closed : ∀ name, ¬ IsOpen s name
  needs : NeedsSeen entries s

theorem settled_start : Settled entries {} where
  sound := sound_start
  closed _ h := absurd h.1 List.not_mem_nil
  needs := nofun

theorem Visits.settled (h : Visits entries s names t) (hs : Settled entries s) :
    Settled entries t := by
  obtain ⟨hsound, hopen⟩ := h.sound hs.sound fun x hx => absurd hx (hs.closed x)
  exact ⟨hsound, fun x hx => hs.closed x ((hopen x).mp hx), h.needsSeen hs.needs⟩

namespace Settled

variable {a b : Entry}

/-- What has been seen is placed. -/
theorem mem_placed (h : Settled entries s) (hb : lastOf? entries b.name = some b)
    (hseen : b.name ∈ s.seen) : b ∈ s.placed := by
  have hname : b.name ∈ s.placed.map (·.name) := by
    by_contra hn
    exact h.closed _ ⟨hseen, hn⟩
  obtain ⟨x, hx, hxb⟩ := List.mem_map.mp hname
  have hlast := h.sound.last x hx
  rw [hxb, hb] at hlast
  exact Option.some.inj hlast ▸ hx

/-- **What a placed entry leads to is placed**, whatever cycles it stands on. -/
theorem reaches (h : Settled entries s) (hd : (entries.map (·.name)).Nodup) (ha : a ∈ s.placed)
    (hpath : ReflTransGen (DependsOn entries) a b) : b ∈ s.placed := by
  induction hpath with
  | refl => exact ha
  | tail _ hxy ih =>
    obtain ⟨-, hy, hdep⟩ := hxy
    have hlast := lastOf?_eq_some_iff.mpr ((isLast_iff_mem hd).mpr hy)
    exact h.mem_placed hlast (h.needs _ ih _ (mem_needs.mpr ⟨hdep, by rw [hlast]; rfl⟩))

end Settled

/-! ## Segments of a sorted list -/

/-- **What the first entries lead to stands first**, and nothing else stands among it. -/
theorem sort_segment (hd : (entries.map (·.name)).Nodup) (k : Nat) :
    ∃ m, ∀ e, e ∈ (sort entries).take m ↔
      ∃ a ∈ entries.take k, ReflTransGen (DependsOn entries) a e := by
  have hlast : ∀ {a}, a ∈ entries → lastOf? entries a.name = some a := fun ha =>
    lastOf?_eq_some_iff.mpr ((isLast_iff_mem hd).mpr ha)
  obtain ⟨seen, h⟩ := visits_sort entries
  rw [← List.take_append_drop k entries, List.map_append, List.take_append_drop] at h
  obtain ⟨first, hfirst, hrest⟩ := h.split
  have hsettled := hfirst.settled settled_start
  obtain ⟨all, hall, hfrom⟩ := hfirst.placed
  obtain ⟨more, hmore, -⟩ := hrest.placed
  refine ⟨first.placed.length, fun e => ?_⟩
  rw [show sort entries = _ from hmore, List.take_left]
  constructor
  · intro he
    rw [hall] at he
    obtain ⟨n, hn, a, ha, hpath⟩ := hfrom e he
    obtain ⟨x, hx, rfl⟩ := List.mem_map.mp hn
    rw [hlast (List.mem_of_mem_take hx)] at ha
    exact ⟨x, hx, Option.some.inj ha ▸ hpath⟩
  · rintro ⟨a, ha, hpath⟩
    have hmem := List.mem_of_mem_take ha
    refine hsettled.reaches hd (hsettled.mem_placed (hlast hmem) ?_) hpath
    exact hfirst.mem_seen _ (List.mem_map_of_mem ha) (List.mem_map_of_mem hmem)

/-- **Two entries stay in their order** unless an entry before the second one leads to it. -/
theorem sort_pair (hd : (entries.map (·.name)).Nodup) {a b : Entry} (hab : [a, b].Sublist entries)
    (hb : ∀ x, [x, b].Sublist entries → ¬ ReflTransGen (DependsOn entries) x b) :
    [a, b].Sublist (sort entries) := by
  obtain ⟨before, behind, hl, ha, hbehind⟩ := List.cons_sublist_iff.mp hab
  obtain ⟨p, q, rfl⟩ := List.append_of_mem (List.singleton_sublist.mp hbehind)
  have hcut : entries = (before ++ p) ++ b :: q := by rw [hl, List.append_assoc]
  have htake : entries.take (before ++ p).length = before ++ p := by rw [hcut, List.take_left]
  obtain ⟨m, hm⟩ := sort_segment hd (before ++ p).length
  rw [htake] at hm
  have hfirst : a ∈ (sort entries).take m := (hm a).mpr ⟨a, List.mem_append_left _ ha, .refl⟩
  have hnot : b ∉ (sort entries).take m := by
    rintro h
    obtain ⟨x, hx, hpath⟩ := (hm b).mp h
    refine hb x ?_ hpath
    rw [hcut]
    exact (List.singleton_sublist.mpr hx).append (List.singleton_sublist.mpr List.mem_cons_self)
  have hsorted : b ∈ (sort entries).take m ++ (sort entries).drop m := by
    rw [List.take_append_drop]
    exact (sort_perm hd).mem_iff.mpr (hl ▸ by simp)
  rw [← List.take_append_drop m (sort entries)]
  exact (List.singleton_sublist.mpr hfirst).append
    (List.singleton_sublist.mpr ((List.mem_append.mp hsorted).resolve_left hnot))

/-! ## Lists in order -/

/-- No entry needs one that stands behind it. -/
def InOrder (entries : List Entry) : Prop := entries.Pairwise fun a b => b.name ∉ a.dependencies

/-- In a list in order nothing leads to an entry further behind. -/
theorem InOrder.not_reaches (ho : InOrder entries) (hd : (entries.map (·.name)).Nodup)
    {x b : Entry} (hxb : [x, b].Sublist entries) : ¬ ReflTransGen (DependsOn entries) x b := by
  obtain ⟨before, behind, rfl, hx, hb⟩ := List.cons_sublist_iff.mp hxb
  have hpair := (List.pairwise_append.mp ho).2.2
  -- a path that starts before a place in the list stays there
  have hstays : ∀ y, ReflTransGen (DependsOn (before ++ behind)) x y → y ∈ before := by
    intro y hpath
    induction hpath with
    | refl => exact hx
    | tail _ hyz ih =>
      obtain ⟨-, hz, hdep⟩ := hyz
      exact (List.mem_append.mp hz).resolve_right fun h => hpair _ ih _ h hdep
  intro hpath
  rw [List.map_append, List.nodup_append] at hd
  exact hd.2.2 _ (List.mem_map_of_mem (hstays b hpath)) _
    (List.mem_map_of_mem (List.singleton_sublist.mp hb)) rfl

theorem sort_of_inOrder (ho : InOrder entries) (hd : (entries.map (·.name)).Nodup) :
    sort entries = entries := by
  refine List.Perm.eq_of_pairwise
    (fun a b _ _ hab hba => eq_of_pairs (nodup_sort entries).of_map hab hba)
    (List.pairwise_iff_forall_sublist.mpr fun h => h)
    (List.pairwise_iff_forall_sublist.mpr fun h => sort_pair hd h fun _ => ho.not_reaches hd)
    (sort_perm hd)

/-- Without cycles, a sorted list is in order. -/
theorem inOrder_sort (hac : ∀ e, ¬ TransGen (DependsOn entries) e e)
    (hd : (entries.map (·.name)).Nodup) : InOrder (sort entries) := by
  refine List.pairwise_iff_forall_sublist.mpr fun {a b} hab hdep => ?_
  obtain ⟨before, behind, hl, ha, hb⟩ := List.cons_sublist_iff.mp hab
  obtain ⟨p, q, rfl⟩ := List.append_of_mem ha
  have hmem : ∀ x, x ∈ sort entries → x ∈ entries := fun x => (sort_perm hd).mem_iff.mp
  have hsplit : sort entries = p ++ a :: (q ++ behind) := by rw [hl]; simp
  have hlater : b ∈ a :: (q ++ behind) :=
    .tail _ (List.mem_append_right _ (List.singleton_sublist.mp hb))
  have hback : TransGen (DependsOn entries) b a := sort_order hsplit hlater hdep
  exact hac b (hback.tail ⟨hmem a (hab.subset (by simp)), hmem b (hab.subset (by simp)), hdep⟩)

/-! ## Stability -/

/-- **Sorting moves an entry forward only when something earlier needs it.** For every number of
first entries, what they lead to along dependencies, themselves included, is exactly a segment at
the start of the sorted list. So two entries stay in their order unless one that stood before the
second leads to it, a list in which no entry needs one behind it stays as it is, and without cycles
sorting a second time changes nothing. -/
theorem sort_stable (entries : List Entry) (hd : (entries.map (·.name)).Nodup) :
    (∀ k, ∃ m, ∀ e, e ∈ (sort entries).take m ↔
      ∃ a ∈ entries.take k, ReflTransGen (DependsOn entries) a e) ∧
    (∀ a b, [a, b].Sublist entries →
      (∀ x, [x, b].Sublist entries → ¬ ReflTransGen (DependsOn entries) x b) →
      [a, b].Sublist (sort entries)) ∧
    (InOrder entries → sort entries = entries) ∧
    ((∀ e, ¬ TransGen (DependsOn entries) e e) → sort (sort entries) = sort entries) :=
  ⟨sort_segment hd, fun _ _ => sort_pair hd, fun ho => sort_of_inOrder ho hd,
    fun hac => sort_of_inOrder (inOrder_sort hac hd) (nodup_sort entries)⟩

/-! ## Entries on a cycle -/

/-- An order and its items need each other; a note and a tag stand between them. -/
def orders : List Entry := [
  { name := "Order", schema := .never, dependencies := ["Item"], category := none },
  { name := "Note", schema := .never, dependencies := ["Tag"], category := none },
  { name := "Item", schema := .never, dependencies := ["Order", "Gone"], category := none },
  { name := "Tag", schema := .never, dependencies := [], category := none }]

/-- The item moves forward for the order, and the tag for the note; the order and the note, which
nothing before them needs, stay in their order. -/
theorem sort_orders : (orders.map (·.name)).Nodup ∧
    [orders[0], orders[1]].Sublist (sort orders) ∧
    ∃ m, ∀ e, e ∈ (sort orders).take m ↔
      ∃ a ∈ orders.take 1, ReflTransGen (DependsOn orders) a e := by
  have hd : (orders.map (·.name)).Nodup := by decide
  obtain ⟨hsegment, hpair, -⟩ := sort_stable orders hd
  -- the order and the item only lead to each other
  have hround : ∀ e, ReflTransGen (DependsOn orders) orders[0] e → e ∈ [orders[0], orders[2]] := by
    intro e hpath
    induction hpath with
    | refl => exact List.mem_cons_self
    | tail _ hab ih =>
      obtain ⟨-, hb, hdep⟩ := hab
      simp only [orders, List.mem_cons, List.not_mem_nil, or_false] at hb ih ⊢
      rcases ih with rfl | rfl <;> rcases hb with rfl | rfl | rfl | rfl <;> simp_all
  refine ⟨hd, hpair _ _ (by simp [orders]) fun x hx hpath => ?_, hsegment 1⟩
  obtain rfl : x = orders[0] := by simpa [orders, List.sublist_cons_iff] using hx
  exact absurd (hround _ hpath) (by simp [orders])

end SchemaForge.Entry
