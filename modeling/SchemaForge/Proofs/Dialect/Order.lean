import SchemaForge.Proofs.Dialect.Definitions
import SchemaForge.Proofs.Entry.Sort

/-!
# The order of constants in a module

A module declares its constants in the order of its entries, and a declaration can only name the
constants before it. Sorted entries need the other form of a reference around cycles only.

* `Library.Writes`: how a library writes the references of a schema, given which constants come
  later.
* `declare_spec`, `declareAll_spec`: one declaration, and the declarations of a list of entries.
* **`emit_sorted`**: in a module of sorted entries a constant is used before its declaration only
  around a cycle.
-/

namespace SchemaForge

open Relation

/-- How a library writes the references of a schema: each in order, as what its name calls for. In
ArkType the keys of records may leave theirs out. -/
def Library.Writes (lib : Library) (late : String → Bool) (s : Schema) (code : Code) : Prop :=
  if lib = .arktype then
    (s.outerRefs.map (lib.written late)).Sublist code.references ∧
      code.references.Sublist (s.refs.map (lib.written late))
  else code.references = s.refs.map (lib.written late)

namespace Dialect

variable {ctx : Context} {options : Options} {lib : Library}

/-! ## One declaration -/

/-- The references of an expression, and the warnings that arise. -/
theorem expression_spec (hc : ctx.options.customScalars = []) {s : Schema} {code : Code}
    (h : (expression ctx s).outcome = .ok code) :
    ctx.library.Writes ctx.isForward s code ∧
      forwards (expression ctx s).log =
        if ctx.library = .arktype then (s.refs.filter ctx.isForward).map (·, ctx.current)
        else [] := by
  have hs := customScalar?_eq_none hc
  unfold expression at h ⊢
  rcases hb : builder? ctx.library with _ | b
  · have hl : ctx.library = .arktype := by
      cases hl : ctx.library <;> rw [hl] at hb <;> cases hb
    rw [hb] at h
    obtain ⟨d, hd, h⟩ := Logged.outcome_bind_eq_ok.mp h
    obtain rfl := Except.ok.inj h
    obtain ⟨hleast, hmost, hwarned⟩ := ArkType.render_references hl hs s 0 d hd
    dsimp only
    rw [Logged.log_bind hd, Logged.log_pure, List.append_nil, if_pos hl, Library.Writes, if_pos hl,
      ArkType.Definition.references_asExpression]
    exact ⟨⟨hleast, hmost⟩, hwarned⟩
  · have hl : ctx.library ≠ .arktype := fun hl => by rw [hl] at hb; cases hb
    rw [hb] at h
    rw [if_neg hl, Library.Writes, if_neg hl]
    exact ⟨Builder.render_references hb hs s 0 code h, Builder.render_quiet s 0⟩

theorem declare_spec (hc : ctx.options.customScalars = []) {a : Entry} {d : Declaration}
    (h : (declare ctx a).outcome = .ok d) :
    d.schemaVar = Name.schemaVar a.name ∧ ctx.library.Writes ctx.isForward a.schema d.code ∧
      forwards (declare ctx a).log =
        if ctx.library = .arktype then (a.schema.refs.filter ctx.isForward).map (·, a.name)
        else [] := by
  unfold declare at h ⊢
  obtain ⟨code, hcode, h⟩ := Logged.outcome_bind_eq_ok.mp h
  obtain ⟨doc, hdoc, h⟩ := Logged.outcome_bind_eq_ok.mp h
  obtain rfl := Except.ok.inj h
  obtain ⟨hw, hf⟩ := @expression_spec { ctx with current := a.name } hc _ _ hcode
  refine ⟨rfl, hw, ?_⟩
  rw [Logged.log_bind hcode, Logged.log_bind hdoc, Logged.log_pure, Logged.log_lift,
    List.append_nil, List.append_nil]
  exact hf

/-! ## The declarations of a list of entries -/

/-- The place behind a list of entries. -/
def Context.after (ctx : Context) (pre : List Entry) : Context :=
  { ctx with declared := (pre.map (·.name)).reverse ++ ctx.declared }

theorem Context.after_cons (ctx : Context) (e : Entry) (pre : List Entry) :
    ctx.after (e :: pre) = { ctx with declared := e.name :: ctx.declared }.after pre := by
  simp [Context.after]

theorem forwards_entry (hc : ctx.options.customScalars = []) {a : Entry} {d : Declaration}
    (h : (declare ctx a).outcome = .ok d) : ∀ x ∈ forwards (declare ctx a).log, x.2 = a.name := by
  rw [(declare_spec hc h).2.2]
  split
  · exact List.forall_mem_map.mpr fun _ _ => rfl
  · exact fun _ h => absurd h List.not_mem_nil

/-- Each entry is declared behind those before it, and the warnings of its declaration stand between
those of the others. -/
theorem declareAll_spec : ∀ {ctx : Context} {es : List Entry} {ds : List Declaration},
    ctx.options.customScalars = [] → (declareAll ctx es).outcome = .ok ds →
    ds.map (·.schemaVar) = es.map (fun e => Name.schemaVar e.name) ∧
    (∀ x ∈ forwards (declareAll ctx es).log, x.2 ∈ es.map (·.name)) ∧
    ∀ pre a post, es = pre ++ a :: post → ∃ d before behind, ds[pre.length]? = some d ∧
      (declare (ctx.after pre) a).outcome = .ok d ∧
      forwards (declareAll ctx es).log =
        before ++ forwards (declare (ctx.after pre) a).log ++ behind ∧
      (∀ x ∈ before, x.2 ∈ pre.map (·.name)) ∧ ∀ x ∈ behind, x.2 ∈ post.map (·.name)
  | ctx, [], ds, _, h => by
    rw [declareAll] at h ⊢
    cases h
    exact ⟨rfl, fun _ h => absurd h List.not_mem_nil, fun pre _ _ h => by cases pre <;> cases h⟩
  | ctx, e :: es, ds, hc, h => by
    rw [declareAll] at h ⊢
    obtain ⟨d, hd, h⟩ := Logged.outcome_bind_eq_ok.mp h
    obtain ⟨rest, hrest, h⟩ := Logged.outcome_bind_eq_ok.mp h
    obtain rfl := Except.ok.inj h
    have hbehind : { ctx with declared := e.name :: ctx.declared }.options.customScalars = [] := hc
    obtain ⟨hvars, hnames, hsplit⟩ := declareAll_spec hbehind hrest
    have hentry := forwards_entry hc hd
    rw [Logged.log_bind hd, Logged.log_bind hrest, Logged.log_pure, List.append_nil,
      forwards_append]
    refine ⟨?_, fun x hx => ?_, fun pre a post hl => ?_⟩
    · rw [List.map_cons, List.map_cons, hvars, (declare_spec hc hd).1]
    · rw [List.map_cons, List.mem_cons]
      rcases List.mem_append.mp hx with hx | hx
      · exact .inl (hentry x hx)
      · exact .inr (hnames x hx)
    · cases pre with
      | nil =>
        rw [List.nil_append, List.cons.injEq] at hl
        obtain ⟨rfl, rfl⟩ := hl
        exact ⟨d, [], _, rfl, hd, rfl, fun _ h => absurd h List.not_mem_nil, hnames⟩
      | cons p pre =>
        rw [List.cons_append, List.cons.injEq] at hl
        obtain ⟨rfl, hl⟩ := hl
        obtain ⟨d', before, behind, hd', hdecl, hlog, hbefore, hbehind⟩ := hsplit pre a post hl
        rw [← Context.after_cons] at hdecl hlog
        refine ⟨d', forwards (declare ctx e).log ++ before, behind, hd', hdecl, ?_,
          fun x hx => ?_, hbehind⟩
        · rw [hlog, List.append_assoc, List.append_assoc, List.append_assoc]
        · rw [List.map_cons, List.mem_cons]
          rcases List.mem_append.mp hx with hx | hx
          · exact .inl (hentry x hx)
          · exact .inr (hbefore x hx)

theorem count_forward (log : List Warning) (name entry : String) :
    log.count (.forward name entry) = (forwards log).count (name, entry) := by
  rw [forwards, List.count_filterMap, List.count_eq_countP]
  refine List.countP_congr fun w _ => ?_
  cases w <;> simp [Warning.forward?]

/-! ## Modules of sorted entries -/

/-- Whether a constant is not declared before the entry that stands before others. -/
def isLate (a : Entry) (post : List Entry) (name : String) : Bool :=
  ((a :: post).map (·.name)).contains name

theorem isForward_after {es pre post : List Entry} {a : Entry} (hd : (es.map (·.name)).Nodup)
    (hl : es = pre ++ a :: post) (name : String) :
    (Context.after { options, library := lib, moduleNames := es.map (·.name), declared := []
                     current := "" } pre).isForward name = isLate a post name := by
  have hdisjoint : name ∈ (a :: post).map (·.name) → name ∉ pre.map (·.name) := by
    rw [hl, List.map_append, List.nodup_append] at hd
    exact fun h h' => hd.2.2 _ h' _ h rfl
  rw [Bool.eq_iff_iff]
  simp only [Context.isForward, Context.after, isLate, Bool.and_eq_true, Bool.not_eq_true',
    List.contains_iff_mem, List.append_nil, List.contains_reverse, hl, List.map_append,
    List.mem_append, ← Bool.not_eq_true]
  exact ⟨fun ⟨h, hn⟩ => h.resolve_left hn, fun h => ⟨.inr h, hdisjoint h⟩⟩

/-- What a module says of one of its entries, which stands between others. -/
structure Placed (lib : Library) (entries : List Entry) (m : Module) (pre : List Entry) (a : Entry)
    (post : List Entry) : Prop where
  /-- The references are written by what is declared before the entry. -/
  declared : ∃ d, m.declarations[pre.length]? = some d ∧ d.schemaVar = Name.schemaVar a.name ∧
    lib.Writes (isLate a post) a.schema d.code
  /-- Only ArkType warns, once for each reference to a later constant. -/
  warned : ∀ name, m.warnings.count (.forward name a.name) =
    if lib = .arktype ∧ isLate a post name then a.schema.refs.count name else 0
  /-- The constants that are not later are those of the entries before. -/
  late_iff : ∀ b ∈ entries, isLate a post b.name ↔ b ∉ pre
  /-- An entry that is referred to and is not before is on a cycle. -/
  cyclic : ∀ b ∈ entries, b.name ∈ a.schema.refs → b ∉ pre →
    b = a ∨ (TransGen (Entry.DependsOn entries) a b ∧ TransGen (Entry.DependsOn entries) b a)

section Sorted

variable {entries : List Entry} {m : Module}

theorem late_iff_not_mem {pre post : List Entry} {a b : Entry}
    (hd : (entries.map (·.name)).Nodup) (hl : Entry.sort entries = pre ++ a :: post)
    (hb : b ∈ entries) : isLate a post b.name ↔ b ∉ pre := by
  have hs := Entry.nodup_sort entries
  rw [hl, List.map_append, List.nodup_append] at hs
  have hbs : b ∈ pre ++ a :: post := hl ▸ (Entry.sort_perm hd).mem_iff.mpr hb
  rw [isLate, List.contains_iff_mem]
  constructor
  · exact fun h hp => hs.2.2 _ (List.mem_map_of_mem hp) _ h rfl
  · exact fun h => List.mem_map_of_mem ((List.mem_append.mp hbs).resolve_left h)

theorem cyclic_of_not_mem {pre post : List Entry} {a b : Entry}
    (hof : ∀ e ∈ entries, e.IsOf) (hd : (entries.map (·.name)).Nodup)
    (hl : Entry.sort entries = pre ++ a :: post) (hb : b ∈ entries)
    (href : b.name ∈ a.schema.refs) (hp : b ∉ pre) :
    b = a ∨ (TransGen (Entry.DependsOn entries) a b ∧ TransGen (Entry.DependsOn entries) b a) := by
  have hmem : ∀ x ∈ pre ++ a :: post, x ∈ entries := fun x hx =>
    (Entry.sort_perm hd).mem_iff.mp (hl ▸ hx)
  have ha : a ∈ entries := hmem a (by simp)
  have hbs : b ∈ a :: post := by
    have : b ∈ pre ++ a :: post := hl ▸ (Entry.sort_perm hd).mem_iff.mpr hb
    exact (List.mem_append.mp this).resolve_left hp
  by_cases hname : b.name = a.name
  · exact .inl ((List.nodup_map_iff_inj_on hd.of_map).mp hd b hb a ha hname)
  · have hdep : b.name ∈ a.dependencies := (hof a ha).mem_dependencies.mpr ⟨href, hname⟩
    exact .inr ⟨.single ⟨ha, hb, hdep⟩, Entry.sort_order hl hbs hdep⟩

variable (hof : ∀ e ∈ entries, e.IsOf) (hd : (entries.map (·.name)).Nodup)
  (hc : options.customScalars = []) (h : emit lib options (Entry.sort entries) = .ok m)

include hd hc h

theorem emit_warned_entries (name entry : String) (hw : .forward name entry ∈ m.warnings) :
    ∃ a ∈ entries, a.name = entry := by
  obtain ⟨ds, hds, rfl⟩ := except_map_eq_ok.mp h
  have hmem : (name, entry) ∈ forwards (declareAll _ _).log :=
    List.mem_filterMap.mpr ⟨_, hw, rfl⟩
  obtain ⟨a, ha, hname⟩ := List.mem_map.mp ((declareAll_spec hc hds).2.1 _ hmem)
  exact ⟨a, (Entry.sort_perm hd).mem_iff.mp ha, hname⟩

include hof

theorem emit_placed {pre post : List Entry} {a : Entry}
    (hl : Entry.sort entries = pre ++ a :: post) : Placed lib entries m pre a post := by
  have hs := Entry.nodup_sort entries
  obtain ⟨ds, hds, rfl⟩ := except_map_eq_ok.mp h
  obtain ⟨d, before, behind, hd', hdecl, hlog, hbefore, hbehind⟩ :=
    (declareAll_spec hc hds).2.2 pre a post hl
  obtain ⟨hvar, hwrites, hforwards⟩ := declare_spec hc hdecl
  rw [funext (isForward_after hs hl)] at hwrites hforwards
  refine ⟨⟨d, hd', hvar, hwrites⟩, fun name => ?_, fun b hb => late_iff_not_mem hd hl hb,
    fun b hb => cyclic_of_not_mem hof hd hl hb⟩
  rw [hl, List.map_append, List.nodup_append, List.map_cons, List.nodup_cons] at hs
  have hpre : (name, a.name) ∉ before := fun hm =>
    hs.2.2 _ (hbefore _ hm) _ List.mem_cons_self rfl
  have hpost : (name, a.name) ∉ behind := fun hm => hs.2.1.1 (hbehind _ hm)
  dsimp only
  rw [count_forward, hlog, List.count_append, List.count_append, List.count_eq_zero.mpr hpre,
    List.count_eq_zero.mpr hpost, hforwards, Nat.zero_add, Nat.add_zero]
  have hpair : Function.Injective fun name : String => (name, a.name) :=
    fun _ _ h => congrArg Prod.fst h
  change List.count _ (if lib = .arktype then _ else []) = _
  by_cases ht : lib = .arktype ∧ isLate a post name
  · rw [if_pos ht, if_pos ht.1, List.count_map_of_injective _ _ hpair, List.count_filter ht.2]
  · rw [if_neg ht]
    split
    · rename_i hl
      rw [List.count_map_of_injective _ _ hpair, List.count_eq_zero]
      exact fun hm => ht ⟨hl, (List.mem_filter.mp hm).2⟩
    · rfl

omit hc h in
theorem acyclic_not_late (hac : ∀ e, ¬ TransGen (Entry.RefersTo entries) e e)
    {pre post : List Entry} {a : Entry} (hl : Entry.sort entries = pre ++ a :: post) {name : String}
    (hn : name ∈ a.schema.refs) : isLate a post name = false := by
  have hdepends : ∀ x y, Entry.DependsOn entries x y → Entry.RefersTo entries x y :=
    fun x y ⟨hx, hy, hdep⟩ => ⟨hx, hy, ((hof x hx).mem_dependencies.mp hdep).1⟩
  rw [← Bool.not_eq_true]
  intro hlate
  obtain ⟨b, hb, rfl⟩ := List.mem_map.mp (List.contains_iff_mem.mp hlate)
  have hmem : ∀ x ∈ a :: post, x ∈ entries := fun x hx =>
    (Entry.sort_perm hd).mem_iff.mp (hl ▸ List.mem_append_right _ hx)
  have hp : b ∉ pre := (late_iff_not_mem hd hl (hmem b hb)).mp hlate
  rcases cyclic_of_not_mem hof hd hl (hmem b hb) hn hp with rfl | ⟨hab, hba⟩
  · exact hac b (.single ⟨hmem b hb, hmem b hb, hn⟩)
  · exact hac a (TransGen.mono hdepends a a (hab.trans hba))

/-- **In a module of sorted entries a constant is used before its declaration only around a
cycle.** Each entry is declared once, in the order of the sort. Its references name the constants
that stand before it, and have the other form (a function, or in ArkType `unknown` with one warning
each) where they name an entry that does not: the entry itself, or one on a common cycle of
dependencies. So without cycles every reference is a bare constant and nothing is warned of; where
an entry may refer to itself, only such references have the other form. -/
theorem emit_sorted :
    m.declarations.map (·.schemaVar) =
      (Entry.sort entries).map (fun e => Name.schemaVar e.name) ∧
    (∀ pre a post, Entry.sort entries = pre ++ a :: post → Placed lib entries m pre a post) ∧
    (∀ name entry, .forward name entry ∈ m.warnings → ∃ a ∈ entries, a.name = entry) ∧
    ((∀ e, ¬ TransGen (Entry.RefersTo entries) e e) →
      (∀ name entry, .forward name entry ∉ m.warnings) ∧
      ∀ d ∈ m.declarations, ∀ r ∈ d.code.references, r.2 = Name.schemaVar r.1) ∧
    ((∀ e, ¬ TransGen (Entry.DependsOn entries) e e) →
      ∀ pre a post, Entry.sort entries = pre ++ a :: post → ∀ b ∈ entries,
        b.name ∈ a.schema.refs → b ∉ pre → b = a) := by
  have hplaced : ∀ pre a post, Entry.sort entries = pre ++ a :: post →
      Placed lib entries m pre a post := fun _ _ _ hl => emit_placed hof hd hc h hl
  have hvars : m.declarations.map (·.schemaVar) =
      (Entry.sort entries).map (fun e => Name.schemaVar e.name) := by
    obtain ⟨ds, hds, rfl⟩ := except_map_eq_ok.mp h
    exact (declareAll_spec hc hds).1
  refine ⟨hvars, hplaced, emit_warned_entries hd hc h, fun hac => ⟨fun name entry hw => ?_,
    fun d hm r hr => ?_⟩, fun hac pre a post hl b hb href hp => ?_⟩
  · obtain ⟨a, ha, rfl⟩ := emit_warned_entries hd hc h name entry hw
    obtain ⟨pre, post, hl⟩ := List.append_of_mem ((Entry.sort_perm hd).mem_iff.mpr ha)
    have hcount := (hplaced pre a post hl).warned name
    have hpos := List.count_pos_iff.mpr hw
    rw [hcount] at hpos
    split at hpos
    · rename_i hlate
      rw [acyclic_not_late hof hd hac hl (List.count_pos_iff.mp hpos)] at hlate
      exact absurd hlate.2 (by decide)
    · exact absurd hpos (Nat.lt_irrefl 0)
  · obtain ⟨pre, post, hl⟩ := List.append_of_mem hm
    obtain ⟨before, a, behind, hs, hlen⟩ : ∃ before a behind,
        Entry.sort entries = before ++ a :: behind ∧ before.length = pre.length := by
      have hlen := congrArg List.length hvars
      simp only [List.length_map, hl, List.length_append, List.length_cons] at hlen
      have hlt : pre.length < (Entry.sort entries).length := by omega
      refine ⟨(Entry.sort entries).take pre.length, (Entry.sort entries)[pre.length],
        (Entry.sort entries).drop (pre.length + 1), ?_, List.length_take_of_le hlt.le⟩
      rw [← List.drop_eq_getElem_cons, List.take_append_drop]
    obtain ⟨d', hd', -, hwrites⟩ := (hplaced before a behind hs).declared
    obtain rfl : d = d' := by
      rw [hlen, hl, List.getElem?_append_right (Nat.le_refl _), Nat.sub_self] at hd'
      exact Option.some.inj hd'
    obtain ⟨name, hname, rfl⟩ : ∃ name ∈ a.schema.refs, lib.written (isLate a behind) name = r := by
      unfold Library.Writes at hwrites
      split at hwrites
      · exact List.mem_map.mp (hwrites.2.subset hr)
      · exact List.mem_map.mp (hwrites ▸ hr)
    rw [Library.written, acyclic_not_late hof hd hac hs hname]
    rfl
  · rcases (hplaced pre a post hl).cyclic b hb href hp with rfl | ⟨hab, hba⟩
    · rfl
    · exact absurd (hab.trans hba) (hac a)

end Sorted

/-! ## A cycle of two entries -/

/-- A person has a pet and a friend, and a pet has an owner. -/
def people : List Entry := [
  .of "Person" (.object [(.str "pet", { schema := .ref "Pet" .null }),
    (.str "friend", { schema := .ref "Person" .null })] .unset .null) none,
  .of "Pet" (.object [(.str "owner", { schema := .ref "Person" .null })] .unset .null) none]

theorem sort_people : Entry.sort people = people.reverse := by
  simp [people, Entry.sort, Entry.of, Entry.visit, Entry.lastOf?, Entry.needs, distinctNames,
    Schema.refs, Schema.refsOfProperties, Schema.refsOfExtra, List.eraseDups_cons]

/-- In the module of both, the pet stands first: its owner is a later constant, the pet of a person
is not, and the friend of a person is the constant that is being declared. -/
theorem emit_people : ∃ m, emit .zod {} (Entry.sort people) = .ok m ∧
    m.declarations.map (·.code.references) = [
      [("Person", "z.lazy((): z.ZodType<any> => personSchema)")],
      [("Pet", "petSchema"), ("Person", "z.lazy((): z.ZodType<any> => personSchema)")]] ∧
    ∀ pre a post, Entry.sort people = pre ++ a :: post → Placed .zod people m pre a post := by
  have hof : ∀ e ∈ people, e.IsOf := by
    unfold people
    simp [Entry.IsOf, Entry.of]
  have hd : (people.map (·.name)).Nodup := by decide
  obtain ⟨m, hm, hrefs⟩ : ∃ m, emit .zod {} people.reverse = .ok m ∧
      m.declarations.map (·.code.references) = [
        [("Person", "z.lazy((): z.ZodType<any> => personSchema)")],
        [("Pet", "petSchema"), ("Person", "z.lazy((): z.ZodType<any> => personSchema)")]] :=
    ⟨_, rfl, by decide⟩
  rw [← sort_people] at hm
  exact ⟨m, hm, hrefs, (emit_sorted hof hd rfl hm).2.1⟩

end Dialect

end SchemaForge
