import SchemaForge.Proofs.Revision.Cascade
import SchemaForge.Revision

/-!
# Filters in any order

Each filter of a plan runs its own rounds, on what those before it have left. What it leaves is
closed under dependencies, so a later filter misses nothing behind an entry that is already gone.
Names may be repeated here: an entry goes as soon as another one of its name does.

* `LeadsByName`: one name leads to another, through an entry of the first that needs the second.
* `Condemned`: a name leads to that of a rejected entry.
* `condemned_or`: two kinds of rejection at once, or one after the other.
* **`reviseEntries_commute`**: a plan leaves what a single pass with all its filters leaves.
-/

namespace SchemaForge

namespace Filter

open Relation

variable {entries : List Entry} {removed warnings : List String} {out : List String × List String}
  {p q : Entry → Prop} {f : Filter} {e : Entry} {name : String}

/-! ## Names that lead to rejected entries -/

/-- An entry of one name has another name among its dependencies. -/
def LeadsByName (entries : List Entry) (a b : String) : Prop :=
  ∃ e ∈ entries, e.name = a ∧ b ∈ e.dependencies

/-- A name leads by name, along dependencies, to an entry that is rejected. -/
def Condemned (rejects : Entry → Prop) (entries : List Entry) (name : String) : Prop :=
  ∃ d ∈ entries, rejects d ∧ ReflTransGen (LeadsByName entries) name d.name

noncomputable instance (rejects : Entry → Prop) (entries : List Entry) :
    DecidablePred (Condemned rejects entries) :=
  fun _ => Classical.propDecidable _

/-- The entries whose names lead to no rejected entry. -/
noncomputable def spared (rejects : Entry → Prop) (entries : List Entry) : List Entry :=
  entries.filter fun e => ¬ Condemned rejects entries e.name

theorem Condemned.head {b : String} (h : Condemned p entries b) (hab : LeadsByName entries name b) :
    Condemned p entries name := by
  obtain ⟨d, hd, hp, hpath⟩ := h
  exact ⟨d, hd, hp, .head hab hpath⟩

theorem mem_spared : e ∈ spared p entries ↔ e ∈ entries ∧ ¬ Condemned p entries e.name := by
  rw [spared, List.mem_filter, decide_eq_true_iff]

theorem LeadsByName.of_spared {a b : String} (h : LeadsByName (spared p entries) a b) :
    LeadsByName entries a b := by
  obtain ⟨e, he, hname⟩ := h
  exact ⟨e, (mem_spared.mp he).1, hname⟩

/-- **A path from a name that is not condemned** stays among the entries that are spared. -/
theorem reflTransGen_spared {a b : String} (hpath : ReflTransGen (LeadsByName entries) a b)
    (ha : ¬ Condemned p entries a) :
    ReflTransGen (LeadsByName (spared p entries)) a b ∧ ¬ Condemned p entries b := by
  induction hpath with
  | refl => exact ⟨.refl, ha⟩
  | tail _ hbc ih =>
    obtain ⟨hspared, hb⟩ := ih
    obtain ⟨e, he, rfl, hdep⟩ := hbc
    exact ⟨hspared.tail ⟨e, mem_spared.mpr ⟨he, hb⟩, rfl, hdep⟩,
      fun hc => hb (hc.head ⟨e, he, rfl, hdep⟩)⟩

/-- **Two kinds of rejection** condemn what the first one condemns, and what the second one condemns
among the rest. -/
theorem condemned_or : Condemned (fun d => p d ∨ q d) entries name ↔
    Condemned p entries name ∨ Condemned q (spared p entries) name := by
  constructor
  · rintro ⟨d, hd, hpq, hpath⟩
    by_cases hname : Condemned p entries name
    · exact .inl hname
    · obtain ⟨hspared, hnot⟩ := reflTransGen_spared hpath hname
      have hq : q d := hpq.resolve_left fun hp => hnot ⟨d, hd, hp, .refl⟩
      exact .inr ⟨d, mem_spared.mpr ⟨hd, hnot⟩, hq, hspared⟩
  · rintro (⟨d, hd, hp, hpath⟩ | ⟨d, hd, hq, hpath⟩)
    · exact ⟨d, hd, .inl hp, hpath⟩
    · have hall : ReflTransGen (LeadsByName entries) name d.name :=
        ReflTransGen.mono (fun _ _ h => h.of_spared) _ _ hpath
      exact ⟨d, (mem_spared.mp hd).1, .inr hq, hall⟩

/-- What is spared one after the other is spared at once. -/
theorem spared_spared :
    spared q (spared p entries) = spared (fun d => p d ∨ q d) entries := by
  have hboth : ∀ e ∈ entries, decide (¬ Condemned (fun d => p d ∨ q d) entries e.name) =
      (decide (¬ Condemned q (spared p entries) e.name)
        && decide (¬ Condemned p entries e.name)) := by
    intro e _
    rw [Bool.eq_iff_iff, Bool.and_eq_true, decide_eq_true_iff, decide_eq_true_iff,
      decide_eq_true_iff, condemned_or, not_or, and_comm]
  calc spared q (spared p entries)
      = entries.filter fun e => decide (¬ Condemned q (spared p entries) e.name)
          && decide (¬ Condemned p entries e.name) := List.filter_filter
    _ = spared (fun d => p d ∨ q d) entries := (List.filter_congr hboth).symm

/-! ## One filter -/

/-- What the rounds have removed at their end: no less than at the start, all that needs a removed
name, and nothing that could stay. -/
theorem Cascades.closure (h : Cascades entries removed warnings out) :
    removed ⊆ out.1 ∧ falling entries out.1 = [] ∧
      ∀ P : String → Prop, (∀ name ∈ removed, P name) →
        (∀ e ∈ entries, ∀ name ∈ e.dependencies, P name → P e.name) → ∀ name ∈ out.1, P name := by
  induction h with
  | stable h => exact ⟨List.Subset.refl _, h, fun _ hP _ => hP⟩
  | round _ _ ih =>
    obtain ⟨hsubset, hstable, hleast⟩ := ih
    exact ⟨List.Subset.trans (List.subset_append_left _ _) hsubset, hstable,
      fun P hP hclosed => hleast P (forall_mem_round hP hclosed) hclosed⟩

/-- **The rounds remove the condemned names.** -/
theorem Cascades.mem_iff (h : Cascades entries (f.rejected entries) warnings out) :
    name ∈ out.1 ↔ Condemned (f.selects · = false) entries name := by
  obtain ⟨hsubset, hstable, hleast⟩ := h.closure
  constructor
  · intro hname
    refine hleast _ (fun n hn => ?_) (fun e he n hn hc => hc.head ⟨e, he, rfl, hn⟩) name hname
    obtain ⟨d, hd, rfl⟩ := List.mem_map.mp hn
    obtain ⟨hmem, hrejects⟩ := List.mem_filter.mp hd
    exact ⟨d, hmem, by simpa using hrejects, .refl⟩
  · rintro ⟨d, hd, hrejects, hpath⟩
    induction hpath using ReflTransGen.head_induction_on with
    | refl => exact hsubset (List.mem_map_of_mem (List.mem_filter.mpr ⟨hd, by simp [hrejects]⟩))
    | head hab _ ih =>
      obtain ⟨e, he, rfl, hdep⟩ := hab
      exact mem_of_stable hstable he hdep ih

/-- **A filter leaves the entries that it spares**, also where names are repeated. -/
theorem apply_entries (f : Filter) (r : Result) :
    (f.apply r).entries = spared (f.selects · = false) r.entries := by
  have hcascades : Cascades r.entries (f.rejected r.entries) r.warnings
      (cascade r.entries (r.entries.length + 1) (f.rejected r.entries) r.warnings) :=
    cascades_cascade _ _ _ _ (Nat.lt_succ_of_le (List.length_filter_le _ _))
  have hentries : (f.apply r).entries = r.entries.filter (!(cascade r.entries
      (r.entries.length + 1) (f.rejected r.entries) r.warnings).1.contains ·.name) := rfl
  rw [hentries]
  refine List.filter_congr fun e _ => ?_
  rw [Bool.eq_iff_iff, decide_eq_true_iff, ← hcascades.mem_iff]
  simp

/-! ## Several filters -/

/-- **Filters one after another** leave what the rejections of all of them spare at once. -/
theorem foldl_apply_entries : ∀ (fs : List Filter) (r : Result),
    (fs.foldl (fun r f => f.apply r) r).entries =
      spared (fun d => ∃ f ∈ fs, f.selects d = false) r.entries
  | [], r => by
    refine (List.filter_eq_self.mpr fun e _ => decide_eq_true ?_).symm
    rintro ⟨_, _, ⟨_, hf, _⟩, _⟩
    exact absurd hf List.not_mem_nil
  | f :: fs, r => by
    rw [List.foldl_cons, foldl_apply_entries fs, apply_entries, spared_spared]
    simp only [List.mem_cons, exists_eq_or_imp]

end Filter

namespace Plan

/-- **Filters commute.** A plan leaves the entries from which no entry that one of its filters
rejects is reached, by name and along dependencies, as a single pass would. So only the filters
matter that are in it, and neither their order nor how often they are applied. -/
theorem reviseEntries_commute (plan : Plan) (r : Result) :
    (plan.reviseEntries r).entries = r.entries.filter (fun e =>
      ¬ Filter.Condemned (fun d => ∃ f ∈ plan.filters, f.selects d = false) r.entries e.name) ∧
    ∀ plan' : Plan, (∀ f, f ∈ plan'.filters ↔ f ∈ plan.filters) →
      (plan'.reviseEntries r).entries = (plan.reviseEntries r).entries := by
  refine ⟨Filter.foldl_apply_entries _ _, fun plan' hsame => ?_⟩
  rw [reviseEntries, reviseEntries, Filter.foldl_apply_entries, Filter.foldl_apply_entries]
  simp only [hsame]

/-- Two entries of one name, only one of which needs a component, and an input that needs them. -/
def crowded : List Entry := [
  .of "Pet" (.ref "Tag" .null) none,
  .of "Pet" (.text none) none,
  .of "PetInput" (.ref "Pet" .null) none,
  .of "Tag" (.text none) (some "component"),
  .of "Owner" (.text none) none]

/-- Without components, both entries of the one name go, before or after the inputs. -/
theorem reviseEntries_crowded :
    let components : Filter := { excludeCategories := [some "component"] }
    let inputs : Filter := { excludeEnd := some "Input" }
    (∀ f, f ∈ [inputs, components, inputs] ↔ f ∈ [components, inputs]) ∧
      (reviseEntries ⟨[inputs, components, inputs], []⟩ ⟨crowded, []⟩).entries =
        (reviseEntries ⟨[components, inputs], []⟩ ⟨crowded, []⟩).entries ∧
      (reviseEntries ⟨[components, inputs], []⟩ ⟨crowded, []⟩).entries.map (·.name) = ["Owner"] := by
  intro components inputs
  have hsame : ∀ f, f ∈ [inputs, components, inputs] ↔ f ∈ [components, inputs] := by
    intro f
    simp only [List.mem_cons, List.not_mem_nil, or_false]
    tauto
  refine ⟨hsame, (reviseEntries_commute ⟨[components, inputs], []⟩ _).2 ⟨_, []⟩ hsame, ?_⟩
  simp +decide [components, inputs, reviseEntries, crowded, Filter.apply, Filter.cascade, Filter.falls,
    Filter.missing, Filter.selects, Filter.given, Entry.of, distinctNames, Schema.refs,
    List.eraseDups_cons]

end Plan

end SchemaForge
