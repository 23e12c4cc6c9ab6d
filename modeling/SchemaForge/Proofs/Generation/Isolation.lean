import SchemaForge.Generation
import SchemaForge.Proofs.Config.Validity
import SchemaForge.Proofs.Files.Writing
import SchemaForge.Proofs.Logged

/-!
# Sources apart

All sources are read before the first file is written, and each one has a directory of its own. So
what a source adds to a run does not depend on the others, as long as no source ends the run.

* `alone`: the run of a configuration with one source only.
* `Share`: what a source adds to a run; `share` computes it from the files that were there first.
* `source_outcome`, `generate_outcome`: a step of a run, and a run, by these shares.
* `Isolated`: a run that does for each source what a run with this source alone does.
* **`generate_isolated`**: a run is isolated, or it ends with the first fault of a source alone.
-/

namespace SchemaForge.Generation

open Files (Place Tree)

variable {plan : Plan} {c : Config} {t : Tree} {w : Material.Web} {s : Config.Source}
  {r r' run : Run} {place : Place} {text : String}

/-- The run of a configuration with one source only. -/
def alone (plan : Plan) (c : Config) (t : Tree) (w : Material.Web) (s : Config.Source) : Step Run :=
  generate plan { c with sources := [s] } t w

/-! ## Shares -/

/-- What a source adds to a run: its outcome, and a file where one is written to the tree. -/
structure Share where
  outcome : Outcome
  file? : Option (Place × String)

/-- A run with one more share. -/
def Run.add (r : Run) (a : Share) : Run :=
  { tree := match a.file? with
      | some (place, text) => r.tree.insert place text
      | none => r.tree
    outcomes := r.outcomes ++ [a.outcome] }

/-- The share of a source that has no module, unless that is a fault. -/
def failedShare (source : String) (f : Failure) : Except Fault Share :=
  match f.fault? with
  | some fault => .error fault
  | none => .ok { outcome := { source, result := .error f }, file? := none }

/-- The share of a source from its module and from where its file goes. -/
def shareOf (c : Config) (source : String) (made : Except Failure Output) (target : Tree.Target) :
    Except Fault Share :=
  match made with
  | .error f => failedShare source f
  | .ok output =>
    let outcome : Outcome := { source, result := .ok { file := outputFile c source, output } }
    match target with
    | .inside place => .ok { outcome, file? := some (place, output.content) }
    | .outside => .ok { outcome, file? := none }
    | .blocked => failedShare source (.unwritable source)

/-- The module of a source of a configuration. -/
def madeOf (plan : Plan) (c : Config) (t : Tree) (w : Material.Web) (s : Config.Source) :
    Except Failure Output :=
  (Material.load t w c s).outcome.mapError .material >>= moduleOf plan s.settings

/-- Where the file of a source goes. -/
def targetOf (c : Config) (t : Tree) (s : Config.Source) : Tree.Target :=
  t.target (outputFile c s.settings.name)

/-- The share of a source of a configuration. -/
def share (plan : Plan) (c : Config) (t : Tree) (w : Material.Web) (s : Config.Source) :
    Except Fault Share :=
  shareOf c s.settings.name (madeOf plan c t w s) (targetOf c t s)

theorem failedShare_eq_ok {source : String} {f : Failure} {a : Share}
    (h : failedShare source f = .ok a) : a.outcome.source = source ∧ a.file? = none := by
  unfold failedShare at h
  split at h
  · cases h
  · cases h
    exact ⟨rfl, rfl⟩

theorem shareOf_eq_ok {source : String} {made : Except Failure Output} {target : Tree.Target}
    {a : Share} (h : shareOf c source made target = .ok a) : a.outcome.source = source ∧
      ∀ place text, a.file? = some (place, text) → target = .inside place := by
  unfold shareOf at h
  split at h
  · obtain ⟨hsource, hfile⟩ := failedShare_eq_ok h
    exact ⟨hsource, fun _ _ hsome => by rw [hfile] at hsome; cases hsome⟩
  · dsimp only at h
    split at h
    · cases h
      refine ⟨rfl, fun _ _ hsome => ?_⟩
      cases hsome
      rfl
    · cases h
      exact ⟨rfl, nofun⟩
    · obtain ⟨hsource, hfile⟩ := failedShare_eq_ok h
      exact ⟨hsource, fun _ _ hsome => by rw [hfile] at hsome; cases hsome⟩

/-- A source ends a run when there is a fault behind its having no module. -/
theorem share_eq_error {f : Fault} : share plan c t w s = .error f ↔
    ∃ failure, madeOf plan c t w s = .error failure ∧ failure.fault? = some f := by
  unfold share shareOf
  rcases madeOf plan c t w s with failure | output
  · simp only [failedShare, Except.error.injEq, exists_eq_left']
    rcases hfault : failure.fault? with - | fault <;> simp
  · dsimp only
    rcases targetOf c t s with place | - | - <;> simp [failedShare, Failure.fault?]

/-! ## Steps and runs -/

/-- **A step of a run** adds the share of its source. -/
theorem source_outcome (r : Run) (s : Config.Settings) (m : Except Material.Failure Material) :
    (r.source plan c s m).outcome = (shareOf c s.name (m.mapError .material >>= moduleOf plan s)
      (r.tree.target (outputFile c s.name))).map r.add := by
  have hfail : ∀ f, (r.fail s.name f).outcome = (failedShare s.name f).map r.add := by
    intro f
    unfold Run.fail failedShare
    rcases f.fault? with - | fault <;> rfl
  unfold Run.source shareOf
  dsimp only
  rcases Except.mapError Failure.material m >>= moduleOf plan s with failure | output
  · exact hfail failure
  · dsimp only
    unfold Tree.write?
    rcases r.tree.target (outputFile c s.name) with place | - | -
    · rfl
    · rfl
    · exact hfail _

theorem alone_outcome (plan : Plan) (c : Config) (t : Tree) (w : Material.Web)
    (s : Config.Source) : (alone plan c t w s).outcome =
      (share plan c t w s).map (Run.add { tree := t }) := by
  unfold alone generate
  simp only [List.map_cons, List.map_nil, List.foldlM_cons, List.foldlM_nil, bind_pure]
  exact source_outcome _ _ _

theorem alone_eq_ok : (alone plan c t w s).outcome = .ok r ↔
    ∃ a, share plan c t w s = .ok a ∧ Run.add { tree := t } a = r := by
  rw [alone_outcome, except_map_eq_ok]

theorem alone_eq_error {f : Fault} :
    (alone plan c t w s).outcome = .error f ↔ share plan c t w s = .error f := by
  rw [alone_outcome]
  rcases share plan c t w s with f' | a <;> simp [Except.map]

section Valid

variable (hc : c.IsValid)

include hc

/-- What a source adds leaves the targets of all sources as they are. -/
theorem targetOf_add {a : Share} (hs : s ∈ c.sources) (ha : share plan c t w s = .ok a)
    (hr : targetOf c r.tree s = targetOf c t s) {b : Config.Source} (hb : b ∈ c.sources) :
    targetOf c (r.add a).tree b = targetOf c r.tree b := by
  obtain ⟨-, hfile⟩ := shareOf_eq_ok ha
  rcases hfile? : a.file? with - | ⟨place, text⟩
  · rw [Run.add, hfile?]
  · have hplace : targetOf c r.tree s = .inside place := hr.trans (hfile place text hfile?)
    rw [Run.add, hfile?]
    exact Tree.target_insert (hc.name_ne hs) (hc.name_ne hb) (by decide) hplace

/-- The steps of a run add the shares of their sources, as they are when nothing is written. -/
theorem foldlM_outcome : ∀ (sources : List Config.Source) (r : Run),
    (∀ s ∈ sources, s ∈ c.sources ∧ targetOf c r.tree s = targetOf c t s) →
    (sources.foldlM (fun r s => r.source plan c s.settings (Material.load t w c s).outcome) r
      : Step Run).outcome = (sources.mapM (share plan c t w)).map fun as => as.foldl Run.add r
  | [], r, _ => by
    rw [List.foldlM_nil, List.mapM_nil]
    rfl
  | s :: sources, r, h => by
    obtain ⟨⟨hs, htarget⟩, hrest⟩ := List.forall_mem_cons.mp h
    have hstep : (r.source plan c s.settings (Material.load t w c s).outcome).outcome =
        (share plan c t w s).map r.add := by
      rw [source_outcome, share, ← htarget]
      rfl
    rw [List.foldlM_cons, List.mapM_cons]
    rcases ha : share plan c t w s with f | a
    · rw [ha] at hstep
      rw [Logged.outcome_bind_error hstep]
      rfl
    · rw [ha] at hstep
      have htargets : ∀ b ∈ sources,
          b ∈ c.sources ∧ targetOf c (r.add a).tree b = targetOf c t b := fun b hb =>
        ⟨(hrest b hb).1, (targetOf_add hc hs ha htarget (hrest b hb).1).trans (hrest b hb).2⟩
      rw [Logged.outcome_bind hstep, foldlM_outcome sources (r.add a) htargets]
      rcases sources.mapM (share plan c t w) with f | as <;> rfl

/-- **A run** adds the shares of all sources to the files that are there. -/
theorem generate_outcome : (generate plan c t w).outcome =
    (c.sources.mapM (share plan c t w)).map fun as => as.foldl Run.add { tree := t } := by
  rw [← foldlM_outcome hc c.sources { tree := t } fun s hs => ⟨hs, rfl⟩]
  unfold generate
  dsimp only
  rw [List.foldlM_map]

end Valid

/-! ## Files -/

theorem outcomes_foldl_add : ∀ (as : List Share) (r : Run),
    (as.foldl Run.add r).outcomes = r.outcomes ++ as.map (·.outcome)
  | [], r => (List.append_nil _).symm
  | a :: as, r => by
    rw [List.foldl_cons, outcomes_foldl_add as, Run.add, List.map_cons, List.append_assoc]
    rfl

theorem stored?_add (h : r.tree.stored? place = r'.tree.stored? place) (a : Share) :
    (r.add a).tree.stored? place = (r'.add a).tree.stored? place := by
  unfold Run.add
  rcases a.file? with - | ⟨place', text⟩
  · exact h
  · dsimp only
    rw [Tree.stored?_insert, Tree.stored?_insert, h]

/-- Where no share has a file, what is stored stays. -/
theorem stored?_foldl_add : ∀ (as : List Share) (r : Run),
    (∀ a ∈ as, ∀ text, a.file? ≠ some (place, text)) →
      (as.foldl Run.add r).tree.stored? place = r.tree.stored? place
  | [], _, _ => rfl
  | a :: as, r, h => by
    obtain ⟨ha, has⟩ := List.forall_mem_cons.mp h
    rw [List.foldl_cons, stored?_foldl_add as _ has, Run.add]
    rcases hfile : a.file? with - | ⟨place', text⟩
    · rfl
    · dsimp only
      rw [Tree.stored?_insert, if_neg]
      rintro rfl
      exact ha text hfile

/-! ## Isolation -/

/-- A run that does for each source what a run with this source alone does. -/
structure Isolated (plan : Plan) (c : Config) (t : Tree) (w : Material.Web) (run : Run) : Prop where
  /-- Each source has one outcome, in order, and it is that of the source alone. -/
  outcomes : List.Forall₂ (fun s o => o.source = s.settings.name ∧
    ∃ tree, (alone plan c t w s).outcome = .ok { tree, outcomes := [o] }) c.sources run.outcomes
  /-- At the place for its file is what is there when the source is alone. -/
  file : ∀ s ∈ c.sources, ∀ r, (alone plan c t w s).outcome = .ok r →
    ∀ place, targetOf c t s = .inside place → run.tree.stored? place = r.tree.stored? place
  /-- Nothing else is written. -/
  rest : ∀ place, (∀ s ∈ c.sources, targetOf c t s ≠ .inside place) →
    run.tree.stored? place = t.stored? place

section Run

variable (hc : c.IsValid)

include hc

/-- Two sources have their files at one place only when they are the same. -/
theorem name_eq_of_target {b : Config.Source} (hs : s ∈ c.sources) (hb : b ∈ c.sources)
    (h : targetOf c t s = .inside place) (h' : targetOf c t b = .inside place) :
    s.settings.name = b.settings.name := by
  by_contra hne
  exact Tree.place_ne (hc.name_ne hs) (hc.name_ne hb) (by decide) h hne h' rfl

theorem stored?_of_shares {as : List Share} (h : c.sources.mapM (share plan c t w) = .ok as)
    (hs : s ∈ c.sources) (hr : (alone plan c t w s).outcome = .ok r)
    (htarget : targetOf c t s = .inside place) :
    (as.foldl Run.add { tree := t }).tree.stored? place = r.tree.stored? place := by
  obtain ⟨a, ha, rfl⟩ := alone_eq_ok.mp hr
  have hother : ∀ b ∈ c.sources, b.settings.name ≠ s.settings.name → ∀ x,
      share plan c t w b = .ok x → ∀ text, x.file? ≠ some (place, text) :=
    fun b hb hne x hx text hfile =>
      hne (name_eq_of_target hc hb hs ((shareOf_eq_ok hx).2 _ _ hfile) htarget)
  have hdistinct := hc.distinct
  obtain ⟨pre, post, hsplit⟩ := List.append_of_mem hs
  rw [hsplit] at h hother hdistinct
  rw [List.map_append, List.map_cons, List.nodup_append] at hdistinct
  obtain ⟨-, hpost, hpre⟩ := hdistinct
  rw [List.mapM_append] at h
  obtain ⟨before, hbefore, h⟩ := except_bind_eq_ok.mp h
  obtain ⟨rest, hrest, h⟩ := except_bind_eq_ok.mp h
  obtain rfl := Except.ok.inj h
  rw [List.mapM_cons] at hrest
  obtain ⟨a', ha', hrest⟩ := except_bind_eq_ok.mp hrest
  obtain rfl := Except.ok.inj (ha.symm.trans ha')
  obtain ⟨behind, hbehind, hrest⟩ := except_bind_eq_ok.mp hrest
  obtain rfl := Except.ok.inj hrest
  -- neither the shares before nor those behind have a file at the place
  rw [List.foldl_append, List.foldl_cons, stored?_foldl_add]
  · refine stored?_add (stored?_foldl_add _ _ fun x hx => ?_) a
    obtain ⟨b, hb, hshare⟩ := exists_of_mem_right (except_mapM_eq_ok.mp hbefore) hx
    exact hother b (by simp [hb])
      (hpre _ (List.mem_map_of_mem hb) _ List.mem_cons_self) x hshare
  · intro x hx
    obtain ⟨b, hb, hshare⟩ := exists_of_mem_right (except_mapM_eq_ok.mp hbehind) hx
    refine hother b (by simp [hb]) (fun hname => ?_) x hshare
    exact (List.nodup_cons.mp hpost).1 (hname ▸ List.mem_map_of_mem hb)

theorem isolated_of_shares {as : List Share} (h : c.sources.mapM (share plan c t w) = .ok as) :
    Isolated plan c t w (as.foldl Run.add { tree := t }) where
  outcomes := by
    rw [outcomes_foldl_add, List.nil_append, List.forall₂_map_right_iff]
    refine (except_mapM_eq_ok.mp h).imp fun s a ha => ⟨(shareOf_eq_ok ha).1, ?_⟩
    exact ⟨_, alone_eq_ok.mpr ⟨a, ha, rfl⟩⟩
  file s hs r hr place htarget := stored?_of_shares hc h hs hr htarget
  rest place hnone := by
    refine stored?_foldl_add as _ fun a ha text hfile => ?_
    obtain ⟨s, hs, hshare⟩ := exists_of_mem_right (except_mapM_eq_ok.mp h) ha
    exact hnone s hs ((shareOf_eq_ok hshare).2 _ _ hfile)

end Run

/-! ## A farm and its shop -/

/-- A farm whose pets are described in a file of some name, with a shop that has one of its own. -/
def farm (file : String) : Config where
  output := "out"
  sources := [
    { settings := { name := "pets" }, kind := .graphql { file := some file } [] },
    { settings := { name := "shop" }, kind := .openapi "shop.json" [] [] }]

/-- A description of pets that uses a type that is not there, and one of the shop. -/
def farmFiles : Tree where
  files := [(["pets.graphql"], "type Query \x7b pet: Pet \x7d"),
    (["shop.json"], "\x7b\"openapi\": \"3.0.0\"\x7d")]

theorem farm_isValid (file : String) : (farm file).IsValid where
  named := by
    refine List.forall_mem_cons.mpr ⟨?_, List.forall_mem_singleton.mpr ?_⟩
    · change Config.isSourceName "pets" = true
      decide
    · change Config.isSourceName "shop" = true
      decide
  distinct := by
    change ["pets", "shop"].Nodup
    decide

end SchemaForge.Generation
