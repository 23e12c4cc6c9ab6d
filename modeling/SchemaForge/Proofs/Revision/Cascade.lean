import SchemaForge.Proofs.Entry.Sort
import SchemaForge.Revision

/-!
# What a filter leaves

A filter drops the entries that it rejects, and in rounds every entry that needs a dropped one. The
rounds carry a bound; here they are a relation with no bound, and what they drop is read off it.

* `Cascades`: rounds until one drops nothing; `cascades_cascade`: as many rounds as there are entries
  are never used up.
* `Doomed`: an entry leads along dependencies to one that the filter rejects.
* `Cascaded`: what the rounds have dropped at their end; **`Cascades.cascaded`**.
* **`apply_remainder`**: the entries that stay are those that are not doomed.
-/

namespace SchemaForge.Filter

open Relation
open Entry (DependsOn)

variable {entries : List Entry} {removed warnings : List String} {out : List String × List String}

/-! ## Rounds -/

/-- The entries that a round drops. -/
def falling (entries : List Entry) (removed : List String) : List Entry :=
  entries.filter (falls removed)

/-- Rounds of dropping, one after another until a round drops nothing, with no bound on their
number. -/
inductive Cascades (entries : List Entry) : List String → List String →
    List String × List String → Prop
  | stable {removed warnings : List String} : falling entries removed = [] →
    Cascades entries removed warnings (removed, warnings)
  | round {removed warnings : List String} {out : List String × List String} :
    falling entries removed ≠ [] →
    Cascades entries (removed ++ (falling entries removed).map (·.name))
      (warnings ++ (falling entries removed).map (dropMessage removed)) out →
    Cascades entries removed warnings out

theorem mem_missing {e : Entry} {name : String} :
    name ∈ missing removed e ↔ name ∈ e.dependencies ∧ name ∈ removed := by
  simp [missing, List.mem_mergeSort, List.mem_filter]

theorem falls_iff {e : Entry} :
    falls removed e = true ↔ e.name ∉ removed ∧ missing removed e ≠ [] := by
  simp [falls]

/-- The entries that are still there: they are the measure of the rounds. -/
def remaining (entries : List Entry) (removed : List String) : List Entry :=
  entries.filter (!removed.contains ·.name)

/-- **A round that drops something leaves fewer entries.** -/
theorem remaining_lt (h : falling entries removed ≠ []) :
    (remaining entries (removed ++ (falling entries removed).map (·.name))).length <
      (remaining entries removed).length := by
  obtain ⟨e, he⟩ := List.exists_mem_of_ne_nil _ h
  have hsplit : remaining entries (removed ++ (falling entries removed).map (·.name)) =
      (remaining entries removed).filter
        (!((falling entries removed).map (·.name)).contains ·.name) := by
    rw [remaining, remaining, List.filter_filter]
    refine List.filter_congr fun x _ => ?_
    simp [Bool.and_comm]
  rw [hsplit, List.length_filter_lt_length_iff_exists]
  obtain ⟨hmem, hfalls⟩ := List.mem_filter.mp he
  refine ⟨e, List.mem_filter.mpr ⟨hmem, by simpa using (falls_iff.mp hfalls).1⟩, ?_⟩
  have hname : e.name ∈ (falling entries removed).map (·.name) := List.mem_map_of_mem he
  simpa using hname

/-- **A bound above the number of entries that are there is never used up.** -/
theorem cascades_cascade (entries : List Entry) : ∀ (rounds : Nat) (removed warnings : List String),
    (remaining entries removed).length < rounds →
      Cascades entries removed warnings (cascade entries rounds removed warnings) := by
  intro rounds
  induction rounds with
  | zero => exact fun _ _ h => absurd h (Nat.not_lt_zero _)
  | succ rounds ih =>
    intro removed warnings h
    rw [cascade, ← falling]
    by_cases hnone : falling entries removed = []
    · rw [if_pos (List.isEmpty_iff.mpr hnone)]
      exact .stable hnone
    · rw [if_neg (mt List.isEmpty_iff.mp hnone)]
      have hlt := remaining_lt hnone
      exact .round hnone (ih _ _ (by omega))

section Round

variable {e : Entry} {name : String}

/-- What a round removes has a property that the names of entries have as soon as one of their
dependencies does. -/
theorem forall_mem_round {P : String → Prop} (hP : ∀ name ∈ removed, P name)
    (hclosed : ∀ e ∈ entries, ∀ name ∈ e.dependencies, P name → P e.name) :
    ∀ name ∈ removed ++ (falling entries removed).map (·.name), P name := by
  refine List.forall_mem_append.mpr ⟨hP, List.forall_mem_map.mpr fun e he => ?_⟩
  obtain ⟨hmem, hfalls⟩ := List.mem_filter.mp he
  obtain ⟨n, hn⟩ := List.exists_mem_of_ne_nil _ (falls_iff.mp hfalls).2
  obtain ⟨hdep, hgone⟩ := mem_missing.mp hn
  exact hclosed e hmem n hdep (hP n hgone)

/-- Where a round would drop nothing, what needs a name that is gone is gone too. -/
theorem mem_of_stable (h : falling entries removed = []) (he : e ∈ entries)
    (hdep : name ∈ e.dependencies) (hgone : name ∈ removed) : e.name ∈ removed := by
  by_contra hnot
  have hmissing : missing removed e ≠ [] := List.ne_nil_of_mem (mem_missing.mpr ⟨hdep, hgone⟩)
  have hfalling : e ∈ falling entries removed :=
    List.mem_filter.mpr ⟨he, falls_iff.mpr ⟨hnot, hmissing⟩⟩
  rw [h] at hfalling
  cases hfalling

end Round

/-! ## What has been dropped -/

/-- What is said of an entry, with the names among those removed that it needs. -/
def Tells (removed : List String) (line : String) (e : Entry) : Prop :=
  ∃ gone ⊆ removed, missing gone e ≠ [] ∧ line = dropMessage gone e

/-- What holds when rounds that began with the names `removed` have ended with others: the entries
`fallen` have been dropped in this order, each with its own line, and no further one needs to be. -/
structure Cascaded (entries : List Entry) (removed warnings : List String)
    (out : List String × List String) (fallen : List Entry) : Prop where
  names : out.1 = removed ++ fallen.map (·.name)
  lines : ∃ lines, out.2 = warnings ++ lines ∧ List.Forall₂ (Tells out.1) lines fallen
  mem : ∀ e ∈ fallen, e ∈ entries ∧ e.name ∉ removed
  nodup : (fallen.map (·.name)).Nodup
  stable : falling entries out.1 = []
  /-- Nothing is removed that some set of names could do without: one that has the first names, and
  with a name those of the entries that need it. -/
  least : ∀ P : String → Prop, (∀ name ∈ removed, P name) →
    (∀ e ∈ entries, ∀ name ∈ e.dependencies, P name → P e.name) → ∀ name ∈ out.1, P name

theorem Cascaded.start (h : falling entries removed = []) :
    Cascaded entries removed warnings (removed, warnings) [] where
  names := (List.append_nil _).symm
  lines := ⟨[], (List.append_nil _).symm, .nil⟩
  mem := by simp
  nodup := List.nodup_nil
  stable := h
  least := fun _ h _ => h

theorem Cascaded.round {fallen : List Entry} (hd : (entries.map (·.name)).Nodup)
    (h : Cascaded entries (removed ++ (falling entries removed).map (·.name))
      (warnings ++ (falling entries removed).map (dropMessage removed)) out fallen) :
    Cascaded entries removed warnings out (falling entries removed ++ fallen) where
  names := by rw [h.names, List.map_append, List.append_assoc]
  lines := by
    obtain ⟨lines, hlines, htells⟩ := h.lines
    refine ⟨_, by rw [hlines, List.append_assoc], List.rel_append ?_ htells⟩
    rw [List.forall₂_map_left_iff, List.forall₂_same]
    intro e he
    obtain ⟨-, hfalls⟩ := List.mem_filter.mp he
    refine ⟨removed, ?_, (falls_iff.mp hfalls).2, rfl⟩
    rw [h.names, List.append_assoc]
    exact List.subset_append_left _ _
  mem := by
    intro e he
    rcases List.mem_append.mp he with he | he
    · obtain ⟨hmem, hfalls⟩ := List.mem_filter.mp he
      exact ⟨hmem, (falls_iff.mp hfalls).1⟩
    · obtain ⟨hmem, hname⟩ := h.mem e he
      exact ⟨hmem, fun hr => hname (List.mem_append_left _ hr)⟩
  nodup := by
    rw [List.map_append, List.nodup_append]
    refine ⟨hd.sublist (List.filter_sublist.map _), h.nodup, fun a ha b hb hab => ?_⟩
    obtain ⟨e, he, rfl⟩ := List.mem_map.mp hb
    exact (h.mem e he).2 (List.mem_append_right _ (hab ▸ ha))
  stable := h.stable
  least := fun P hP hclosed => h.least P (forall_mem_round hP hclosed) hclosed

/-- **What rounds have dropped at their end.** -/
theorem Cascades.cascaded (hd : (entries.map (·.name)).Nodup)
    (h : Cascades entries removed warnings out) :
    ∃ fallen, Cascaded entries removed warnings out fallen := by
  induction h with
  | stable h => exact ⟨[], .start h⟩
  | round _ _ ih =>
    obtain ⟨fallen, hfallen⟩ := ih
    exact ⟨_, hfallen.round hd⟩

/-! ## Doomed entries -/

/-- An entry leads along dependencies between entries to one that the filter rejects, which may be
the entry itself. -/
def Doomed (f : Filter) (entries : List Entry) (e : Entry) : Prop :=
  ∃ d, ReflTransGen (DependsOn entries) e d ∧ f.selects d = false

noncomputable instance (f : Filter) (entries : List Entry) : DecidablePred (f.Doomed entries) :=
  fun _ => Classical.propDecidable _

/-- The names of the entries that the filter rejects. -/
def rejected (f : Filter) (entries : List Entry) : List String :=
  (entries.filter (!f.selects ·)).map (·.name)

variable {f : Filter} {fallen : List Entry} {e : Entry}

theorem eq_of_name_eq (hd : (entries.map (·.name)).Nodup) {a b : Entry} (ha : a ∈ entries)
    (hb : b ∈ entries) (h : a.name = b.name) : a = b :=
  List.inj_on_of_nodup_map hd ha hb h

theorem mem_rejected (hd : (entries.map (·.name)).Nodup) (he : e ∈ entries) :
    e.name ∈ f.rejected entries ↔ f.selects e = false := by
  constructor
  · intro h
    obtain ⟨d, hmem, hname⟩ := List.mem_map.mp h
    obtain ⟨hmem, hrejects⟩ := List.mem_filter.mp hmem
    obtain rfl := eq_of_name_eq hd hmem he hname
    simpa using hrejects
  · intro h
    exact List.mem_map_of_mem (List.mem_filter.mpr ⟨he, by simp [h]⟩)

/-- **The rounds remove the names of the doomed entries.** -/
theorem Cascaded.mem_iff (hd : (entries.map (·.name)).Nodup)
    (h : Cascaded entries (f.rejected entries) warnings out fallen) (he : e ∈ entries) :
    e.name ∈ out.1 ↔ f.Doomed entries e := by
  constructor
  · intro hname
    have hleast := h.least (fun name => ∃ d ∈ entries, d.name = name ∧ f.Doomed entries d) ?_ ?_ _
      hname
    · obtain ⟨d, hmem, hsame, hdoomed⟩ := hleast
      rwa [eq_of_name_eq hd hmem he hsame] at hdoomed
    · intro name hname
      obtain ⟨d, hmem, rfl⟩ := List.mem_map.mp hname
      obtain ⟨hmem, hrejects⟩ := List.mem_filter.mp hmem
      exact ⟨d, hmem, rfl, d, .refl, by simpa using hrejects⟩
    · rintro a ha _ hdep ⟨d, hmem, rfl, x, hpath, hrejects⟩
      exact ⟨a, ha, rfl, x, .head ⟨ha, hmem, hdep⟩ hpath, hrejects⟩
  · rintro ⟨d, hpath, hrejects⟩
    -- against the path: what needs a name that is gone would fall in one more round
    induction hpath using ReflTransGen.head_induction_on with
    | refl =>
      rw [h.names]
      exact List.mem_append_left _ ((mem_rejected hd he).mpr hrejects)
    | @head a b hab _ ih =>
      obtain ⟨ha, hb, hdep⟩ := hab
      exact mem_of_stable h.stable ha hdep (ih hb)

/-- **The rounds drop the doomed entries that the filter alone keeps.** -/
theorem Cascaded.mem_fallen (hd : (entries.map (·.name)).Nodup)
    (h : Cascaded entries (f.rejected entries) warnings out fallen) :
    e ∈ fallen ↔ e ∈ entries ∧ f.selects e = true ∧ f.Doomed entries e := by
  constructor
  · intro he
    obtain ⟨hmem, hname⟩ := h.mem e he
    refine ⟨hmem, ?_, (h.mem_iff hd hmem).mp ?_⟩
    · rwa [mem_rejected hd hmem, Bool.not_eq_false] at hname
    · rw [h.names]
      exact List.mem_append_right _ (List.mem_map_of_mem he)
  · rintro ⟨hmem, hselects, hdoomed⟩
    have hname := (h.mem_iff hd hmem).mpr hdoomed
    rw [h.names, List.mem_append, mem_rejected hd hmem, hselects] at hname
    obtain ⟨d, hd', hsame⟩ := List.mem_map.mp (hname.resolve_left (by simp))
    rwa [eq_of_name_eq hd (h.mem d hd').1 hmem hsame] at hd'

/-! ## The remainder -/

/-- What a filter makes of a result. -/
structure Remainder (f : Filter) (r r' : Result) : Prop where
  /-- The rounds end by themselves. -/
  ends : ∃ removed, Cascades r.entries (f.rejected r.entries) r.warnings (removed, r'.warnings) ∧
    r'.entries = r.entries.filter (!removed.contains ·.name)
  /-- Just the entries stay that lead to no rejected one. -/
  entries : r'.entries = r.entries.filter fun e => ¬ f.Doomed r.entries e
  /-- What an entry that stays needs stays too. -/
  closed : ∀ e ∈ r'.entries, ∀ d ∈ r.entries, d.name ∈ e.dependencies → d ∈ r'.entries
  /-- There is one line more for each entry that the filter alone keeps and that is dropped. -/
  warnings : ∃ dropped lines, r'.warnings = r.warnings ++ lines ∧
    dropped.Perm (r.entries.filter fun e => f.selects e = true ∧ f.Doomed r.entries e) ∧
    List.Forall₂ (fun line e => ∃ gone, line = dropMessage gone e ∧ missing gone e ≠ [] ∧
      ∀ name ∈ gone, ∃ d ∈ r.entries, d.name = name ∧ d ∉ r'.entries) lines dropped

/-- **Main statement.** Where names are distinct, a filter leaves exactly the entries from which no
rejected entry can be reached along dependencies, in their order, and tells once of each other entry
that it would have kept. -/
theorem apply_remainder (f : Filter) (r : Result) (hd : (r.entries.map (·.name)).Nodup) :
    f.Remainder r (f.apply r) := by
  have hcascades : Cascades r.entries (f.rejected r.entries) r.warnings
      (cascade r.entries (r.entries.length + 1) (f.rejected r.entries) r.warnings) :=
    cascades_cascade _ _ _ _ (Nat.lt_succ_of_le (List.length_filter_le _ _))
  have hentries : (f.apply r).entries = r.entries.filter (!(cascade r.entries
      (r.entries.length + 1) (f.rejected r.entries) r.warnings).1.contains ·.name) := rfl
  have hwarnings : (f.apply r).warnings = (cascade r.entries (r.entries.length + 1)
      (f.rejected r.entries) r.warnings).2 := rfl
  obtain ⟨fallen, hfallen⟩ := hcascades.cascaded hd
  generalize cascade r.entries (r.entries.length + 1) (f.rejected r.entries) r.warnings = out at *
  have hmem : ∀ e, e ∈ (f.apply r).entries ↔ e ∈ r.entries ∧ ¬ f.Doomed r.entries e := by
    intro e
    rw [hentries, List.mem_filter]
    refine and_congr_right fun he => ?_
    rw [← hfallen.mem_iff hd he]
    simp
  refine ⟨⟨out.1, hwarnings ▸ hcascades, hentries⟩, ?_, ?_, ?_⟩
  · rw [hentries]
    refine List.filter_congr fun e he => ?_
    rw [Bool.eq_iff_iff, decide_eq_true_iff, ← hfallen.mem_iff hd he]
    simp
  · intro e he d hmemd hdep
    obtain ⟨hmeme, hnot⟩ := (hmem e).mp he
    refine (hmem d).mpr ⟨hmemd, fun ⟨x, hpath, hrejects⟩ => hnot ⟨x, ?_, hrejects⟩⟩
    exact .head ⟨hmeme, hmemd, hdep⟩ hpath
  · obtain ⟨lines, hlines, htells⟩ := hfallen.lines
    refine ⟨fallen, lines, hwarnings.trans hlines, ?_, htells.imp fun line e => ?_⟩
    · rw [List.perm_ext_iff_of_nodup hfallen.nodup.of_map (hd.of_map.filter _)]
      intro e
      rw [hfallen.mem_fallen hd, List.mem_filter, decide_eq_true_iff]
    · rintro ⟨gone, hgone, hmissing, hline⟩
      refine ⟨gone, hline, hmissing, fun name hname => ?_⟩
      -- a name that is removed is that of an entry, a rejected or a fallen one
      obtain ⟨d, hmemd, rfl⟩ : ∃ d ∈ r.entries, d.name = name := by
        have hout := hgone hname
        rw [hfallen.names, List.mem_append] at hout
        rcases hout with hout | hout
        · obtain ⟨d, hmemd, rfl⟩ := List.mem_map.mp hout
          exact ⟨d, (List.mem_filter.mp hmemd).1, rfl⟩
        · obtain ⟨d, hmemd, rfl⟩ := List.mem_map.mp hout
          exact ⟨d, (hfallen.mem d hmemd).1, rfl⟩
      refine ⟨d, hmemd, rfl, fun hstays => ((hmem d).mp hstays).2 ?_⟩
      exact (hfallen.mem_iff hd hmemd).mp (hgone hname)

/-! ## A secret in a cycle -/

/-- Two entries that need each other, one of which needs a secret, and one entry apart. -/
def guarded : List Entry := [
  .of "Account" (.ref "Session" .null) none,
  .of "Session" (.object [(.str "account", { schema := .ref "Account" .null }),
    (.str "secret", { schema := .ref "Secret" .null })] .unset .null) none,
  .of "Secret" (.text none) (some "component"),
  .of "Other" (.text none) none]

/-- Without the secret, both entries of the cycle go, and only the one apart stays. -/
theorem apply_guarded : (guarded.map (·.name)).Nodup ∧
    ∃ r, ({ excludeCategories := [some "component"] } : Filter).apply ⟨guarded, []⟩ = r ∧
      ({ excludeCategories := [some "component"] } : Filter).Remainder ⟨guarded, []⟩ r ∧
      r.entries.map (·.name) = ["Other"] ∧ r.warnings.length = 2 := by
  have hd : (guarded.map (·.name)).Nodup := by decide
  refine ⟨hd, _, rfl, apply_remainder _ _ hd, ?_, ?_⟩
  · simp [guarded, apply, cascade, falls, missing, selects, given, Entry.of, distinctNames,
      Schema.refs, Schema.refsOfProperties, Schema.refsOfExtra, List.eraseDups_cons]
  · simp [guarded, apply, cascade, falls, missing, selects, given, Entry.of, distinctNames,
      Schema.refs, Schema.refsOfProperties, Schema.refsOfExtra, List.eraseDups_cons]

end SchemaForge.Filter
