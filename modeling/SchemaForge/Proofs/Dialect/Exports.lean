import Mathlib.Data.List.Nodup
import Mathlib.Data.List.Pairwise
import SchemaForge.Dialect.Module
import SchemaForge.Proofs.Logged
import SchemaForge.Proofs.Name.TypeName

/-!
# The constants that a module exports

A module exports a constant for the schema of each entry, and with Effect an adapter where adapters
are asked for. Their names are made of the names of entries with the first letter in lower case.

* `Name.stem`: what the constants of an entry begin with; `Name.schemaVar_eq_adapterVar_iff`: when
  a constant has the name of an adapter.
* `Module.exports`: the names of the constants that a module exports.
* **`emit_exports`**: they are distinct when no two stems are equal or differ by `Standard`.
* `exports_clash`: distinct names of entries are not enough.
-/

namespace SchemaForge

/-! ## Names of constants -/

namespace Name

/-- What the constants of an entry begin with: its name with the first letter in lower case. -/
def stem (name : String) : List Char := Text.lowerFirst name.toList

variable {a b : String}

theorem toList_schemaVar (name : String) :
    (schemaVar name).toList = stem name ++ "Schema".toList := by
  rw [schemaVar, String.toList_append, String.toList_ofList, stem]

/-- The adapter of a constant takes the place of its ending. -/
theorem toList_adapterVar (name : String) :
    (adapterVar (schemaVar name)).toList = stem name ++ "StandardSchema".toList := by
  unfold adapterVar
  dsimp only
  rw [String.toList_append, String.toList_ofList, toList_schemaVar, if_pos, List.length_append,
    Nat.add_sub_cancel, List.take_left]
  exact List.isSuffixOf_iff_suffix.mpr (List.suffix_append _ _)

theorem schemaVar_eq_iff : schemaVar a = schemaVar b ↔ stem a = stem b := by
  rw [← String.toList_inj, toList_schemaVar, toList_schemaVar, List.append_left_inj]

theorem adapterVar_eq_iff :
    adapterVar (schemaVar a) = adapterVar (schemaVar b) ↔ stem a = stem b := by
  rw [← String.toList_inj, toList_adapterVar, toList_adapterVar, List.append_left_inj]

/-- **A constant has the name of an adapter** when its entry is called like the other one with
`Standard` behind. -/
theorem schemaVar_eq_adapterVar_iff :
    schemaVar b = adapterVar (schemaVar a) ↔ stem b = stem a ++ "Standard".toList := by
  have hending : "StandardSchema".toList = "Standard".toList ++ "Schema".toList := rfl
  rw [← String.toList_inj, toList_schemaVar, toList_adapterVar, hending, ← List.append_assoc,
    List.append_left_inj]

theorem lower_of_isTypeName {c : Char} (h : c.isUpper ∨ c = '_') :
    Text.lower [c] = [c.toLower] ∧ c.toNat < 128 := by
  have hlt : c.toNat < 128 := by
    rcases h with h | rfl
    · have halphanum : (c.isUpper || c.isLower || c.isDigit) = true := by simp [h]
      exact toNat_lt_of_isAlphanum halphanum
    · decide
  have hsigma : (c == 'Σ') = false := by
    rw [beq_eq_false_iff_ne]
    rintro rfl
    exact absurd hlt (by decide)
  exact ⟨by simp [Text.lower, Text.lowerFrom, hsigma, Text.lowerChar, hlt], hlt⟩

/-- **Type names are told apart by their stems.** -/
theorem eq_of_stem_eq (ha : isTypeName a) (hb : isTypeName b) (h : stem a = stem b) : a = b := by
  obtain ⟨c, rest, hac, hc, -⟩ := isTypeName_iff.mp ha
  obtain ⟨d, rest', hbd, hd, -⟩ := isTypeName_iff.mp hb
  obtain ⟨hcl, hclt⟩ := lower_of_isTypeName hc
  obtain ⟨hdl, hdlt⟩ := lower_of_isTypeName hd
  rw [stem, stem, hac, hbd, Text.lowerFirst, Text.lowerFirst, hcl, hdl, List.singleton_append,
    List.singleton_append, List.cons.injEq] at h
  -- capitals and the underscore go back to themselves
  have hback : ∀ c : Char, c.toNat < 128 → (c.isUpper ∨ c = '_') → c.toLower.toUpper = c := by
    intro c hlt hc
    have := of_lt (P := fun c => !(c.isUpper || c == '_') || c.toLower.toUpper == c) (by decide) hlt
    rcases hc with hc | rfl
    · simpa [hc] using this
    · rfl
  have hcd : c = d := by rw [← hback c hclt hc, ← hback d hdlt hd, h.1]
  rw [← String.toList_inj, hac, hbd, hcd, h.2]

end Name

/-! ## Repeated names -/

/-- **No name is found to be repeated** when all are distinct, and none was seen before. -/
theorem Entry.firstRepeated?_eq_none : ∀ {entries : List Entry} {seen : List String},
    Entry.firstRepeated? seen entries = none ↔
      (entries.map (·.name)).Nodup ∧ ∀ e ∈ entries, e.name ∉ seen
  | [], seen => by simp [Entry.firstRepeated?]
  | e :: entries, seen => by
    rw [Entry.firstRepeated?, List.map_cons, List.nodup_cons, List.forall_mem_cons]
    by_cases he : e.name ∈ seen
    · simp [he]
    · rw [if_neg (by simpa using he), Entry.firstRepeated?_eq_none]
      simp only [List.mem_cons, not_or, List.mem_map, not_exists, not_and]
      constructor
      · rintro ⟨hd, hseen⟩
        exact ⟨⟨fun x hx => (hseen x hx).1, hd⟩, he, fun x hx => (hseen x hx).2⟩
      · rintro ⟨⟨hnew, hd⟩, -, hseen⟩
        exact ⟨hd, fun x hx => ⟨hnew x hx, hseen x hx⟩⟩

namespace Dialect

/-! ## What is exported -/

/-- The name in a statement `export const NAME = VALUE;` of a given value. -/
def constantOf? (value statement : String) : Option String :=
  let before := "export const ".toList
  let behind := (" = " ++ value ++ ";").toList
  let cs := statement.toList
  if before.isPrefixOf cs && behind.isSuffixOf (cs.drop before.length) then
    some (String.ofList ((cs.drop before.length).take
      (cs.length - before.length - behind.length)))
  else none

/-- The names of the constants that a declaration exports: that of the schema, and those that the
further declarations give to adapters of it. -/
def Declaration.exports (d : Declaration) : List String :=
  d.schemaVar :: d.adapters.filterMap
    (constantOf? ("Schema.standardSchemaV1(" ++ d.schemaVar ++ ")"))

/-- The names of the constants that a module exports, in order. -/
def Module.exports (m : Module) : List String := m.declarations.flatMap Declaration.exports

theorem constantOf?_statement (name value : String) :
    constantOf? value ("export const " ++ name ++ " = " ++ value ++ ";") = some name := by
  have hcs : ("export const " ++ name ++ " = " ++ value ++ ";").toList =
      "export const ".toList ++ (name.toList ++ (" = " ++ value ++ ";").toList) := by
    simp only [String.toList_append, List.append_assoc]
  unfold constantOf?
  dsimp only
  rw [hcs, List.drop_left, if_pos, List.length_append, List.length_append, Nat.add_sub_cancel_left,
    Nat.add_sub_cancel, List.take_left, String.ofList_toList]
  rw [Bool.and_eq_true]
  exact ⟨List.isPrefixOf_iff_prefix.mpr (List.prefix_append _ _),
    List.isSuffixOf_iff_suffix.mpr (List.suffix_append _ _)⟩

theorem constantOf?_adapterLine (schemaVar : String) :
    constantOf? ("Schema.standardSchemaV1(" ++ schemaVar ++ ")") (Effect.adapterLine schemaVar) =
      some (Name.adapterVar schemaVar) := by
  have hopen : " = Schema.standardSchemaV1(" = " = " ++ "Schema.standardSchemaV1(" := rfl
  have hclose : ");" = ")" ++ ";" := rfl
  have hline : Effect.adapterLine schemaVar = "export const " ++ Name.adapterVar schemaVar ++ " = " ++
      ("Schema.standardSchemaV1(" ++ schemaVar ++ ")") ++ ";" := by
    rw [Effect.adapterLine, hopen, hclose]
    simp only [String.append_assoc]
  rw [hline, constantOf?_statement]

variable {ctx : Context} {lib : Library} {options : Options} {entries : List Entry} {m : Module}

/-- Whether each schema gets an adapter. -/
def adapts (lib : Library) (options : Options) : Bool := lib == .effect && options.standardSchema

/-- The names of the constants of an entry. -/
def constants (lib : Library) (options : Options) (e : Entry) : List String :=
  Name.schemaVar e.name ::
    if adapts lib options then [Name.adapterVar (Name.schemaVar e.name)] else []

theorem declare_exports {e : Entry} {d : Declaration} (h : (declare ctx e).outcome = .ok d) :
    d.exports = constants ctx.library ctx.options e := by
  unfold declare at h
  obtain ⟨code, -, h⟩ := Logged.outcome_bind_eq_ok.mp h
  obtain ⟨doc, -, h⟩ := Logged.outcome_bind_eq_ok.mp h
  obtain rfl := Except.ok.inj h
  unfold Declaration.exports constants adapts
  dsimp only
  split
  · rw [List.filterMap_cons, constantOf?_adapterLine, List.filterMap_nil]
  · rfl

theorem declareAll_exports : ∀ {es : List Entry} {ctx : Context} {ds : List Declaration},
    (declareAll ctx es).outcome = .ok ds →
      ds.flatMap Declaration.exports = es.flatMap (constants ctx.library ctx.options)
  | [], ctx, ds, h => by
    rw [declareAll] at h
    obtain rfl := Except.ok.inj h
    rfl
  | e :: es, ctx, ds, h => by
    rw [declareAll] at h
    obtain ⟨d, hd, h⟩ := Logged.outcome_bind_eq_ok.mp h
    obtain ⟨rest, hrest, h⟩ := Logged.outcome_bind_eq_ok.mp h
    obtain rfl := Except.ok.inj h
    rw [List.flatMap_cons, List.flatMap_cons, declare_exports hd, declareAll_exports hrest]

/-- A module exports the constants of its entries. -/
theorem exports_eq (h : emit lib options entries = .ok m) :
    m.exports = entries.flatMap (constants lib options) := by
  obtain ⟨ds, hds, rfl⟩ := except_map_eq_ok.mp h
  exact declareAll_exports hds

/-! ## When exports are distinct -/

/-- No constant of an entry has the name of an adapter. -/
def Standalone (entries : List Entry) : Prop :=
  ∀ a ∈ entries, ∀ b ∈ entries, Name.stem b.name ≠ Name.stem a.name ++ "Standard".toList

theorem stem_ne_standard (name : String) :
    Name.stem name ≠ Name.stem name ++ "Standard".toList := by
  intro h
  exact absurd (List.self_eq_append_right.mp h) (by decide)

theorem nodup_constants (e : Entry) : (constants lib options e).Nodup := by
  unfold constants
  split
  · rw [List.nodup_cons, List.mem_singleton, Name.schemaVar_eq_adapterVar_iff]
    exact ⟨stem_ne_standard _, List.nodup_singleton _⟩
  · exact List.nodup_singleton _

/-- Neither of two entries is called like the other one with `Standard` behind. -/
def Apart (a b : Entry) : Prop :=
  Name.stem b.name ≠ Name.stem a.name ++ "Standard".toList ∧
    Name.stem a.name ≠ Name.stem b.name ++ "Standard".toList

instance : Std.Symm Apart where
  symm _ _ h := h.symm

/-- Two entries have no constant in common when their stems are neither equal nor, with adapters,
equal up to `Standard`. -/
theorem disjoint_constants {a b : Entry} :
    (constants lib options a).Disjoint (constants lib options b) ↔
      Name.stem a.name ≠ Name.stem b.name ∧ (adapts lib options = true → Apart a b) := by
  unfold constants Apart
  rcases hadapts : adapts lib options
  · simp [Name.schemaVar_eq_iff, eq_comm]
  · rw [if_pos rfl, if_pos rfl]
    simp only [List.disjoint_cons_right, List.mem_cons, List.not_mem_nil, or_false, not_or,
      List.disjoint_nil_right, and_true, forall_const, Name.schemaVar_eq_iff,
      Name.adapterVar_eq_iff, Name.schemaVar_eq_adapterVar_iff]
    rw [eq_comm (a := Name.adapterVar (Name.schemaVar b.name)), Name.schemaVar_eq_adapterVar_iff,
      eq_comm (a := Name.stem b.name) (b := Name.stem a.name)]
    constructor
    · rintro ⟨⟨hne, hba⟩, hab, -⟩
      exact ⟨hne, hba, hab⟩
    · rintro ⟨hne, hba, hab⟩
      exact ⟨⟨hne, hba⟩, hab, hne⟩

/-- The stems of the names of entries are distinct. -/
def StemsDiffer (entries : List Entry) : Prop :=
  entries.Pairwise fun a b => Name.stem a.name ≠ Name.stem b.name

theorem nodup_constants_iff : (entries.flatMap (constants lib options)).Nodup ↔
    StemsDiffer entries ∧ (adapts lib options = true → Standalone entries) := by
  rw [List.nodup_flatMap]
  constructor
  · rintro ⟨-, h⟩
    have hpairs := h.imp fun hab => disjoint_constants.mp hab
    refine ⟨hpairs.imp fun hab => hab.1, fun hadapts a ha b hb => ?_⟩
    have hapart : entries.Pairwise Apart := hpairs.imp fun hab => hab.2 hadapts
    exact (hapart.forall_of_forall (fun x _ => ⟨stem_ne_standard _, stem_ne_standard _⟩) ha hb).1
  · rintro ⟨hstems, hstandalone⟩
    refine ⟨fun e _ => nodup_constants e, hstems.imp_of_mem fun ha hb hab => ?_⟩
    exact disjoint_constants.mpr ⟨hab, fun hadapts =>
      ⟨hstandalone hadapts _ ha _ hb, hstandalone hadapts _ hb _ ha⟩⟩

/-- **Main statement.** The constants that a module exports are distinct exactly when the names of
its entries have distinct stems and, where there are adapters, no stem is another one with
`Standard` behind. Distinct type names have distinct stems. -/
theorem emit_exports (h : emit lib options entries = .ok m) :
    (m.exports.Nodup ↔
      StemsDiffer entries ∧ (adapts lib options = true → Standalone entries)) ∧
    (Entry.firstRepeated? [] entries = none → (∀ e ∈ entries, Name.isTypeName e.name) →
      StemsDiffer entries) := by
  refine ⟨by rw [exports_eq h, nodup_constants_iff], fun hu hnames => ?_⟩
  have hd := List.pairwise_map.mp (Entry.firstRepeated?_eq_none.mp hu).1
  exact hd.imp_of_mem fun ha hb hne hab =>
    hne (Name.eq_of_stem_eq (hnames _ ha) (hnames _ hb) hab)

/-- A module with adapters for two entries whose names are no stems of each other. -/
theorem emit_pets : ∃ m, emit .effect { standardSchema := true }
      [.of "Pet" .boolean none, .of "PetOwner" .boolean none] = .ok m ∧
    m.exports.Nodup ∧ m.exports =
      ["petSchema", "petStandardSchema", "petOwnerSchema", "petOwnerStandardSchema"] := by
  obtain ⟨m, hm⟩ : ∃ m, emit .effect { standardSchema := true }
      [.of "Pet" .boolean none, .of "PetOwner" .boolean none] = .ok m := ⟨_, rfl⟩
  have hstems : StemsDiffer [.of "Pet" .boolean none, .of "PetOwner" .boolean none] :=
    (emit_exports hm).2 (by decide) (by decide)
  refine ⟨m, hm, (emit_exports hm).1.mpr ⟨hstems, fun _ => ?_⟩, ?_⟩
  · unfold Standalone
    decide
  · rw [exports_eq hm]
    decide

/-! ## Names that clash -/

/-- Two entries whose names differ in the case of the first letter. -/
def users : List Entry := [.of "User" .boolean none, .of "user" .boolean none]

/-- An entry whose name is another one with `Standard` behind. -/
def standards : List Entry := [.of "Pet" .boolean none, .of "PetStandard" .boolean none]

/-- **Distinct names are not enough.** In every library two entries can have one constant, and with
Effect the adapter of an entry can have the name of the constant of another. -/
theorem exports_clash :
    (Entry.firstRepeated? [] users = none ∧ ∀ lib, ∃ m, emit lib {} users = .ok m ∧
      m.exports = ["userSchema", "userSchema"] ∧ ¬ m.exports.Nodup) ∧
    (Entry.firstRepeated? [] standards = none ∧
      ∃ m, emit .effect { standardSchema := true } standards = .ok m ∧
        m.exports = ["petSchema", "petStandardSchema", "petStandardSchema",
          "petStandardStandardSchema"] ∧ ¬ m.exports.Nodup) := by
  refine ⟨⟨by decide, fun lib => ?_⟩, by decide, ?_⟩
  · obtain ⟨m, hm⟩ : ∃ m, emit lib {} users = .ok m := by cases lib <;> exact ⟨_, rfl⟩
    have hexports : m.exports = ["userSchema", "userSchema"] := by
      rw [exports_eq hm]
      cases lib <;> decide
    exact ⟨m, hm, hexports, by rw [hexports]; decide⟩
  · obtain ⟨m, hm⟩ : ∃ m, emit .effect { standardSchema := true } standards = .ok m := ⟨_, rfl⟩
    have hexports : m.exports = ["petSchema", "petStandardSchema", "petStandardSchema",
        "petStandardStandardSchema"] := by
      rw [exports_eq hm]
      decide
    exact ⟨m, hm, hexports, by rw [hexports]; decide⟩

end Dialect

end SchemaForge
