import SchemaForge.Proofs.GraphQL.Soundness

/-!
# Presence of required properties

A property of a selection is required when no `@include` or `@skip` stands on a use of its field.
Directives on the fragments around a use, or on one of several fields whose parts are merged, are
not looked at. So a required property may be missing from a response.

* `Position`: the objects of a response, with what is lowered for them and what is executed.
* `shape_required`: the required properties of a shape.
* `AlwaysPresent`: whatever the variables are, every object holds its required properties.
* `Spot`: the places where objects are lowered, with all directives that decide on their parts.
* `Covered`: at each spot the directives of a required property let it be whenever those of the
  object let the object be.
* **`alwaysPresent_iff_covered`**: required properties are always present exactly when covered;
  `covered_of_unconditional`: without conditions they are.
-/

namespace SchemaForge.GraphQL

open Selection Lowering

/-! ## What is required -/

/-- A selection that is lowered on its own: that of an operation, or that of a fragment, which is
open then. -/
inductive Written (c : Setting) : List String → List Selection → Prop
  | operation (l : List Selection) : Written c [] l
  | fragment {name : String} {f : Fragment} : fragment? c.fragments name = some f →
    Written c [name] f.selections

/-- The types at which a selection on a type is shaped. -/
def shapeTypes (c : Setting) (inside : List String) (t : NamedType) (l : List Selection) :
    List NamedType :=
  if t.isAbstract && narrows c.fragments t.name c.spreadBound inside l then c.system.possibleTypes t
  else [t]

/-- Shaping a selection at one type leads through a group to shaping its parts at another type. -/
def Leads (c : Setting) (inside : List String) (t : NamedType) (l : List Selection) (g : Group)
    (u : NamedType) : Prop :=
  g ∈ groupsOf c inside t l ∧ g.first.name ≠ "__typename" ∧ ∃ f n,
    t.field? g.first.name = some f ∧ c.system.find? f.type.name = some n ∧ n.kind ≠ .scalar ∧
      n.kind ≠ .enum ∧ u ∈ shapeTypes c inside n g.selections

/-- A group whose property is required. -/
def Demanded (t : NamedType) (g : Group) : Prop :=
  g.first.name = "__typename" ∨ ((t.field? g.first.name).isSome ∧ g.isConditional = false)

/-- The objects that a response holds under an assignment, each with the type at which it is shaped,
the selection that is lowered for it and the selection that is executed for it. At a union or an
interface that is shaped as a whole, every possible type is asked for the same. -/
inductive Position (c : Setting) (inside : List String) (σ : Assignment) (root : NamedType)
    (l : List Selection) : NamedType → List Selection → List Selection → Prop
  | root {t : NamedType} : t ∈ shapeTypes c inside root l → Position c inside σ root l t l l
  | field {t u : NamedType} {lowered executed : List Selection} {g : Group}
    {out : List (String × Use)} {seen : List String} :
    Position c inside σ root l t lowered executed → Leads c inside t lowered g u →
    Collects c.system c.fragments t σ [] executed out seen → g.key ∈ out.map (·.1) →
    Position c inside σ root l u g.selections (mergedAt out g.key)

/-- Whatever the variables in conditions are, every object of a response holds the properties that
its shape requires. -/
def AlwaysPresent (c : Setting) (place : Place) (inside : List String) (root : NamedType)
    (l : List Selection) : Prop :=
  ∀ σ t lowered executed, Position c inside σ root l t lowered executed →
    ∀ depth properties extra description,
      (shape c place inside (selectionWithin c place inside depth) t lowered).outcome =
        .ok (.object properties extra description) →
      ∀ key p, (Atom.str key, p) ∈ properties → p.required = true →
        ∃ out seen, Collects c.system c.fragments t σ [] executed out seen ∧ key ∈ out.map (·.1)

theorem Written.apart {c : Setting} {inside : List String} {l : List Selection}
    (h : Written c inside l) (ha : Acyclic c.fragments) : Apart c.fragments inside l := by
  cases h with
  | operation l => exact apart_nil _ l
  | fragment hf => exact apart_self ha hf

variable {c : Setting} {place : Place} {inside : List String} {root t u : NamedType}
  {l lowered executed : List Selection} {σ : Assignment}

theorem wrapped_nullish {build : NamedType → Lower Schema} : ∀ {r : TypeRef} {m : Modified},
    (wrapped c.system build r).outcome = .ok m → m.nullish = false
  | .nonNull r, m, h => by
    rw [wrapped, Logged.outcome_bind_eq_ok] at h
    obtain ⟨inner, hinner, h⟩ := h
    have hnullish : inner.nullish = false := wrapped_nullish hinner
    obtain rfl := Except.ok.inj h
    exact hnullish
  | .list r, m, h => by
    rw [wrapped, Logged.outcome_bind_eq_ok] at h
    obtain ⟨inner, -, h⟩ := h
    obtain rfl := Except.ok.inj h
    rfl
  | .named name, m, h => by
    rw [wrapped] at h
    rcases hfind : c.system.find? name with _ | t
    · rw [hfind] at h
      obtain rfl := Except.ok.inj h
      rfl
    · rw [hfind, Logged.outcome_bind_eq_ok] at h
      obtain ⟨x, -, h⟩ := h
      obtain rfl := Except.ok.inj h
      rfl

/-- **A group has no property, or one that is required when the group is demanded.** -/
theorem property_cases {nested : NamedType → List Selection → Lower Schema} {g : Group}
    {p : Option (Atom × Property Schema)}
    (h : (property c place nested t g).outcome = .ok p) :
    (p = none ∧ ¬ Demanded t g) ∨
      ∃ q, p = some (.str g.key, q) ∧ (q.required = true ↔ Demanded t g) := by
  by_cases hname : g.first.name = "__typename"
  · rw [property_typeName hname] at h
    refine .inr ⟨_, (Except.ok.inj h).symm, ?_⟩
    rw [toProperty_required]
    exact ⟨fun _ => .inl hname, fun _ => rfl⟩
  · rcases hf : t.field? g.first.name with _ | f
    · rw [property_unknown hname hf] at h
      refine .inl ⟨(Except.ok.inj h).symm, ?_⟩
      simp [Demanded, hname, hf]
    · rw [property_field hname hf, Logged.outcome_bind_eq_ok] at h
      obtain ⟨m, hm, h⟩ := h
      have hnullish := wrapped_nullish hm
      refine .inr ⟨_, (Except.ok.inj h).symm, ?_⟩
      rw [toProperty_required, Modified.isNullish, hnullish]
      cases hcond : g.isConditional <;> simp [Demanded, hname, hf, hcond]

/-- **The required properties of a shape are those of the demanded groups.** -/
theorem shape_required {nested : NamedType → List Selection → Lower Schema}
    {properties : List (Atom × Property Schema)} {extra : Extra Schema} {description : Value}
    (h : (shape c place inside nested t l).outcome = .ok (.object properties extra description))
    {key : String} : (∃ p, (Atom.str key, p) ∈ properties ∧ p.required = true) ↔
      ∃ g ∈ groupsOf c inside t l, g.key = key ∧ Demanded t g := by
  obtain ⟨ps, hps, hobject⟩ := shape_eq_ok.mp h
  obtain rfl : properties = ps.filterMap id := by injection hobject
  constructor
  · rintro ⟨p, hp, hreq⟩
    obtain ⟨p', hp', hid⟩ := List.mem_filterMap.mp hp
    obtain ⟨g, hg, hprop⟩ := exists_of_mem_right hps hp'
    rcases property_cases hprop with ⟨rfl, -⟩ | ⟨q, rfl, hq⟩
    · cases hid
    · cases hid
      exact ⟨g, hg, rfl, hq.mp hreq⟩
  · rintro ⟨g, hg, rfl, hd⟩
    obtain ⟨p', hp', hprop⟩ := exists_of_mem_left hps hg
    rcases property_cases hprop with ⟨-, hnot⟩ | ⟨q, rfl, hq⟩
    · exact absurd hd hnot
    · exact ⟨q, List.mem_filterMap.mpr ⟨_, hp', rfl⟩, hq.mpr hd⟩

/-! ## The directives that decide -/

/-- A selection with the directives on all that is around it, up to the root. -/
structure Guarded where
  guards : List Directive
  selection : Selection

/-- The fields that guarded selections ask for on a type, with all directives that decide on
them. -/
def asks (c : Setting) (t : NamedType) (L : List Guarded) : List Asked :=
  L.flatMap fun x => (found c.system c.fragments t [x.selection]).map (.under x.guards)

/-- The fields that guarded selections ask for under one key. -/
def asksAt (c : Setting) (t : NamedType) (L : List Guarded) (key : String) : List Asked :=
  (asks c t L).filter (·.key == key)

/-- The guarded selections in the object under one key. -/
def parts (c : Setting) (t : NamedType) (L : List Guarded) (key : String) : List Guarded :=
  (asksAt c t L key).flatMap fun a => a.use.selections.map fun y => ⟨a.guards, y⟩

/-- The places at which lowering shapes an object: the type, the directives under which the object
is there, once for each time that it is asked for, and what is selected in it. -/
inductive Spot (c : Setting) (inside : List String) (root : NamedType) (l : List Selection) :
    NamedType → List (List Directive) → List Guarded → Prop
  | root {t : NamedType} : t ∈ shapeTypes c inside root l →
    Spot c inside root l t [[]] (l.map fun x => ⟨[], x⟩)
  | field {t u : NamedType} {P : List (List Directive)} {L : List Guarded} {g : Group} :
    Spot c inside root l t P L → Leads c inside t (L.map (·.selection)) g u →
    Spot c inside root l u ((asksAt c t L g.key).map (·.guards)) (parts c t L g.key)

/-- At each spot, whatever lets the object be lets one of the fields be that a required property is
asked for by. -/
def Covered (c : Setting) (inside : List String) (root : NamedType) (l : List Selection) : Prop :=
  ∀ t P L, Spot c inside root l t P L → ∀ g ∈ groupsOf c inside t (L.map (·.selection)),
    Demanded t g → ∀ σ, (∃ ds ∈ P, kept σ ds = true) →
      ∃ a ∈ asks c t L, a.key = g.key ∧ kept σ a.guards = true

theorem mem_asks {L : List Guarded} {a : Asked} : a ∈ asks c t L ↔
    ∃ x ∈ L, ∃ b ∈ found c.system c.fragments t [x.selection], b.under x.guards = a := by
  simp only [asks, List.mem_flatMap, List.mem_map]

theorem mem_asksAt {L : List Guarded} {key : String} {a : Asked} :
    a ∈ asksAt c t L key ↔ a ∈ asks c t L ∧ a.key = key := by
  rw [asksAt, List.mem_filter, beq_iff_eq]

theorem asks_bare (L : List Guarded) : (asks c t L).map Asked.bare =
    (found c.system c.fragments t (L.map (·.selection))).map Asked.bare := by
  rw [asks, found_eq_flatMap, List.flatMap_map, List.map_flatMap, List.map_flatMap]
  refine List.flatMap_congr fun x _ => ?_
  rw [List.map_map]
  exact List.map_congr_left fun a _ => a.bare_under x.guards

/-- **What is lowered in the object under a key is what is guarded there.** -/
theorem parts_selection (ha : Acyclic c.fragments) {L : List Guarded}
    (hin : Apart c.fragments inside (L.map (·.selection))) {g : Group}
    (hg : g ∈ groupsOf c inside t (L.map (·.selection))) :
    (parts c t L g.key).map (·.selection) = g.selections := by
  have huses : g.uses = (asksAt c t L g.key).map (·.use) := by
    rw [(groups_group _).uses g hg, Setting.spreadBound, collect_eq_found ha hin, ← asks_bare,
      asksAt, List.filter_map, List.map_map]
    rfl
  rw [Group.selections, huses, parts, List.map_flatMap, List.flatMap_map]
  refine List.flatMap_congr fun a _ => ?_
  rw [List.map_map]
  exact List.map_id _

theorem map_selection_root (l : List Selection) :
    (l.map fun x => (⟨[], x⟩ : Guarded)).map (·.selection) = l := by
  rw [List.map_map]
  exact List.map_id l

theorem Spot.apart (ha : Acyclic c.fragments) (hin : Apart c.fragments inside l)
    {P : List (List Directive)} {L : List Guarded} (h : Spot c inside root l t P L) :
    Apart c.fragments inside (L.map (·.selection)) := by
  induction h with
  | root ht => rwa [map_selection_root]
  | field _ hleads ih =>
    rw [parts_selection ha ih hleads.1]
    exact apart_selections ha ih hleads.1

/-- A selection at a spot stands under directives under which the object is there. -/
theorem Spot.guards_mem {P : List (List Directive)} {L : List Guarded}
    (h : Spot c inside root l t P L) : ∀ x ∈ L, x.guards ∈ P := by
  cases h with
  | root ht =>
    intro x hx
    obtain ⟨y, -, rfl⟩ := List.mem_map.mp hx
    exact List.mem_singleton_self []
  | field _ _ =>
    intro x hx
    obtain ⟨a, hasked, hx⟩ := List.mem_flatMap.mp hx
    obtain ⟨y, -, rfl⟩ := List.mem_map.mp hx
    exact List.mem_map_of_mem hasked

/-! ## Spots and positions -/

/-- What is executed is what the directives of guarded selections keep. -/
def Matches (σ : Assignment) (L : List Guarded) (executed : List Selection) : Prop :=
  ∀ y, y ∈ executed ↔ ∃ x ∈ L, x.selection = y ∧ kept σ x.guards = true

/-- **Execution collects the fields that are asked for and kept.** -/
theorem Matches.mem_out {L : List Guarded} (h : Matches σ L executed) (ha : Acyclic c.fragments)
    {out : List (String × Use)} {seen : List String}
    (hout : Collects c.system c.fragments t σ [] executed out seen) {use : String × Use} :
    use ∈ out ↔ ∃ a ∈ asks c t L, kept σ a.guards = true ∧ a.bare = use := by
  rw [(hout.similar ha).mem_iff, mem_selected]
  constructor
  · rintro ⟨y, hy, b, hb, hk, rfl⟩
    obtain ⟨x, hx, rfl, hkx⟩ := (h y).mp hy
    refine ⟨b.under x.guards, mem_asks.mpr ⟨x, hx, b, hb, rfl⟩, ?_, b.bare_under x.guards⟩
    rw [kept_under, hkx, hk, Bool.and_self]
  · rintro ⟨a, hasked, hk, rfl⟩
    obtain ⟨x, hx, b, hb, rfl⟩ := mem_asks.mp hasked
    rw [kept_under, Bool.and_eq_true] at hk
    exact ⟨x.selection, (h _).mpr ⟨x, hx, rfl, hk.1⟩, b, hb, hk.2, (b.bare_under x.guards).symm⟩

/-- A key is in an object when a field that is asked for under it is kept. -/
theorem Matches.mem_keys {L : List Guarded} (h : Matches σ L executed) (ha : Acyclic c.fragments)
    {out : List (String × Use)} {seen : List String}
    (hout : Collects c.system c.fragments t σ [] executed out seen) {key : String} :
    key ∈ out.map (·.1) ↔ ∃ a ∈ asks c t L, a.key = key ∧ kept σ a.guards = true := by
  rw [List.mem_map]
  constructor
  · rintro ⟨use, huse, rfl⟩
    obtain ⟨a, hasked, hk, rfl⟩ := (h.mem_out ha hout).mp huse
    exact ⟨a, hasked, rfl, hk⟩
  · rintro ⟨a, hasked, rfl, hk⟩
    exact ⟨a.bare, (h.mem_out ha hout).mpr ⟨a, hasked, hk, rfl⟩, rfl⟩

theorem matches_root (σ : Assignment) (l : List Selection) :
    Matches σ (l.map fun x => ⟨[], x⟩) l := by
  intro y
  constructor
  · exact fun hy => ⟨_, List.mem_map_of_mem hy, rfl, rfl⟩
  · rintro ⟨x, hx, rfl, -⟩
    obtain ⟨z, hz, rfl⟩ := List.mem_map.mp hx
    exact hz

/-- **What execution merges in the object under a key is what the directives of its parts keep.** -/
theorem Matches.parts {L : List Guarded} (h : Matches σ L executed) (ha : Acyclic c.fragments)
    {out : List (String × Use)} {seen : List String}
    (hout : Collects c.system c.fragments t σ [] executed out seen) (key : String) :
    Matches σ (parts c t L key) (mergedAt out key) := by
  intro y
  rw [mergedAt, usesOf, List.mem_flatMap]
  constructor
  · rintro ⟨use, huse, hy⟩
    obtain ⟨use', huse', rfl⟩ := List.mem_map.mp huse
    obtain ⟨hmem, hkey⟩ := List.mem_filter.mp huse'
    obtain ⟨a, hasked, hk, rfl⟩ := (h.mem_out ha hout).mp hmem
    have hat : a ∈ asksAt c t L key := mem_asksAt.mpr ⟨hasked, beq_iff_eq.mp hkey⟩
    exact ⟨⟨a.guards, y⟩, List.mem_flatMap.mpr ⟨a, hat, List.mem_map_of_mem hy⟩, rfl, hk⟩
  · rintro ⟨x, hx, rfl, hk⟩
    obtain ⟨a, hat, hx⟩ := List.mem_flatMap.mp hx
    obtain ⟨z, hz, rfl⟩ := List.mem_map.mp hx
    obtain ⟨hasked, hkey⟩ := mem_asksAt.mp hat
    have hmem : a.bare ∈ out := (h.mem_out ha hout).mpr ⟨a, hasked, hk, rfl⟩
    have hfilter : a.bare ∈ out.filter (·.1 == key) :=
      List.mem_filter.mpr ⟨hmem, beq_iff_eq.mpr hkey⟩
    exact ⟨a.use, List.mem_map.mpr ⟨a.bare, hfilter, rfl⟩, hz⟩

/-- **Every object of a response stands at a spot that its assignment lets be.** -/
theorem Position.spot (ha : Acyclic c.fragments) (hin : Apart c.fragments inside l)
    (h : Position c inside σ root l t lowered executed) :
    ∃ P L, Spot c inside root l t P L ∧ L.map (·.selection) = lowered ∧
      (∃ ds ∈ P, kept σ ds = true) ∧ Matches σ L executed := by
  induction h with
  | root ht =>
    have hthere : ∃ ds ∈ [([] : List Directive)], kept σ ds = true :=
      ⟨[], List.mem_singleton_self _, rfl⟩
    exact ⟨_, _, .root ht, map_selection_root l, hthere, matches_root σ l⟩
  | @field t u lowered executed g out seen _ hleads hout hkey ih =>
    obtain ⟨P, L, hspot, rfl, -, hmatch⟩ := ih
    refine ⟨_, _, .field hspot hleads, parts_selection ha (hspot.apart ha hin) hleads.1, ?_,
      hmatch.parts ha hout g.key⟩
    obtain ⟨a, hasked, hk, hkept⟩ := (hmatch.mem_keys ha hout).mp hkey
    exact ⟨a.guards, List.mem_map_of_mem (mem_asksAt.mpr ⟨hasked, hk⟩), hkept⟩

/-- **At every spot stands an object of a response, under each assignment that lets it be.** -/
theorem Spot.position (ha : Acyclic c.fragments) (hin : Apart c.fragments inside l)
    {P : List (List Directive)} {L : List Guarded} (h : Spot c inside root l t P L) :
    (∃ ds ∈ P, kept σ ds = true) →
      ∃ executed, Position c inside σ root l t (L.map (·.selection)) executed ∧
        Matches σ L executed := by
  induction h with
  | root ht =>
    intro _
    rw [map_selection_root]
    exact ⟨l, .root ht, matches_root σ l⟩
  | @field t u P L g hspot hleads ih =>
    rintro ⟨ds, hds, hkept⟩
    obtain ⟨a, hat, rfl⟩ := List.mem_map.mp hds
    obtain ⟨hasked, hkey⟩ := mem_asksAt.mp hat
    -- the directives around the field keep the object that it stands in
    have hparent : ∃ ds ∈ P, kept σ ds = true := by
      obtain ⟨x, hx, b, -, rfl⟩ := mem_asks.mp hasked
      rw [kept_under, Bool.and_eq_true] at hkept
      exact ⟨x.guards, hspot.guards_mem x hx, hkept.1⟩
    obtain ⟨executed, hposition, hmatch⟩ := ih hparent
    obtain ⟨out, seen, hout⟩ : ∃ out seen, Collects c.system c.fragments t σ [] executed out seen :=
      collects_total ha executed []
    have hmem : g.key ∈ out.map (·.1) := (hmatch.mem_keys ha hout).mpr ⟨a, hasked, hkey, hkept⟩
    rw [parts_selection ha (hspot.apart ha hin) hleads.1]
    exact ⟨_, .field hposition hleads hout hmem, hmatch.parts ha hout g.key⟩

/-! ## Without conditions -/

theorem Spot.unconditional (hfs : ∀ f ∈ c.fragments, Unconditional f.selections)
    (hop : Unconditional l) {P : List (List Directive)} {L : List Guarded}
    (h : Spot c inside root l t P L) :
    ∀ x ∈ L, Quiet x.guards ∧ Unconditional [x.selection] := by
  induction h with
  | root ht =>
    intro x hx
    obtain ⟨y, hy, rfl⟩ := List.mem_map.mp hx
    exact ⟨fun d hd => absurd hd List.not_mem_nil, hop.single hy⟩
  | field _ _ ih =>
    intro x hx
    obtain ⟨a, hat, hx⟩ := List.mem_flatMap.mp hx
    obtain ⟨y, hy, rfl⟩ := List.mem_map.mp hx
    obtain ⟨z, hz, b, hb, rfl⟩ := mem_asks.mp (mem_asksAt.mp hat).1
    obtain ⟨hguards, hz⟩ := ih z hz
    obtain ⟨hown, -, hrest⟩ := found_unconditional hfs hz b hb
    exact ⟨hguards.append hown, hrest.single hy⟩

/-- **Without `@include` and `@skip` every selection is covered.** -/
theorem covered_of_unconditional (ha : Acyclic c.fragments) (hl : Written c inside l)
    (hfs : ∀ f ∈ c.fragments, Unconditional f.selections) (hop : Unconditional l) :
    Covered c inside root l := by
  intro t P L hspot g hg _ σ _
  have hin := hspot.apart ha (hl.apart ha)
  obtain ⟨a, hown, hkey, -⟩ := mem_uses ha hin hg List.mem_cons_self
  have hbare : a.bare ∈ (asks c t L).map Asked.bare := by
    rw [asks_bare]
    exact List.mem_map_of_mem hown
  obtain ⟨b, hb, hab⟩ := List.mem_map.mp hbare
  obtain ⟨x, hx, b, hfound, rfl⟩ := mem_asks.mp hb
  obtain ⟨hguards, hx⟩ := hspot.unconditional hfs hop x hx
  have hown := (found_unconditional hfs hx b hfound).1
  refine ⟨_, hb, (congrArg Prod.fst hab).trans hkey, ?_⟩
  rw [kept_under, hguards.kept, hown.kept, Bool.and_self]

/-! ## Presence -/

/-- **Main statement.** Where fragments have no cycle, the required properties of a selection are
present in every object, under every assignment, exactly when at each spot the directives of the
object are covered by those of each property that is required. -/
theorem alwaysPresent_iff_covered (ha : Acyclic c.fragments) (hl : Written c inside l)
    (place : Place) (root : NamedType) :
    AlwaysPresent c place inside root l ↔ Covered c inside root l := by
  have hin := hl.apart ha
  constructor
  · intro hpresent t P L hspot g hg hdemanded σ hthere
    obtain ⟨executed, hposition, hmatch⟩ := hspot.position ha hin hthere
    obtain ⟨depth, x, hx⟩ := shape_grounded ha.grounded place inside t
      (L.map (·.selection))
    obtain ⟨ps, -, rfl⟩ := shape_eq_ok.mp hx
    obtain ⟨p, hp, hreq⟩ := (shape_required hx).mpr ⟨g, hg, rfl, hdemanded⟩
    obtain ⟨out, seen, hout, hkey⟩ := hpresent σ t _ _ hposition depth _ _ _ hx g.key p hp hreq
    exact (hmatch.mem_keys ha hout).mp hkey
  · intro hcovered σ t lowered executed hposition depth properties extra description hx key p hp
      hreq
    obtain ⟨P, L, hspot, rfl, hthere, hmatch⟩ := hposition.spot ha hin
    obtain ⟨g, hg, rfl, hdemanded⟩ := (shape_required hx).mp ⟨p, hp, hreq⟩
    obtain ⟨out, seen, hout⟩ : ∃ out seen, Collects c.system c.fragments t σ [] executed out seen :=
      collects_total ha executed []
    refine ⟨out, seen, hout, (hmatch.mem_keys ha hout).mpr ?_⟩
    exact hcovered t P L hspot g hg hdemanded σ hthere

/-! ## A name that is asked for in two ways -/

/-- A directive that looks at whether names are asked for. -/
def onNamed (directive : String) : Directive :=
  { name := directive, arguments := [("if", .variable "named")] }

/-- A pet that is asked for in two ways, one of which is left out. -/
def eitherPet : List Selection := [
  .field none "pet" [] [onNamed "include"] [.spread "Named" []],
  .field none "pet" [] [onNamed "skip"] [.field none "name" [] [] []]]

/-- What is asked for in the pet. -/
def eitherParts : List Guarded :=
  [⟨[onNamed "include"], .spread "Named" []⟩, ⟨[onNamed "skip"], .field none "name" [] [] []⟩]

theorem eitherPet_spot {P : List (List Directive)} {L : List Guarded}
    (h : Spot petSetting [] petSystem.types[0] eitherPet t P L) :
    (t = petSystem.types[0] ∧ L = eitherPet.map fun x => ⟨[], x⟩) ∨
      (t = petSystem.types[1] ∧ P = [[onNamed "include"], [onNamed "skip"]] ∧
        L = eitherParts) := by
  induction h with
  | root ht => exact .inl ⟨List.mem_singleton.mp ht, rfl⟩
  | field _ hleads ih =>
    obtain ⟨hg, -, f, n, hf, hn, hscalar, -, hu⟩ := hleads
    rcases ih with ⟨rfl, rfl⟩ | ⟨rfl, rfl, rfl⟩
    · obtain rfl := List.mem_singleton.mp hg
      cases hf
      cases hn
      exact .inr ⟨List.mem_singleton.mp hu, rfl, rfl⟩
    · -- the name of a pet has no parts
      obtain rfl := List.mem_singleton.mp hg
      cases hf
      cases hn
      exact absurd rfl hscalar

/-- The two ways cover the name between them, though neither does alone. -/
theorem eitherPet_covered : Covered petSetting [] petSystem.types[0] eitherPet := by
  rintro t P L hspot g hg hdemanded σ ⟨ds, hds, hkept⟩
  rcases eitherPet_spot hspot with ⟨rfl, rfl⟩ | ⟨rfl, rfl, rfl⟩
  · -- the pet itself is not required
    obtain rfl := List.mem_singleton.mp hg
    rcases hdemanded with hname | ⟨-, hcond⟩
    · exact absurd hname (by decide)
    · cases hcond
  · obtain rfl := List.mem_singleton.mp hg
    have hasks : asks petSetting petSystem.types[1] eitherParts =
        [[onNamed "include"], [onNamed "skip"]].map (⟨"name", ⟨"name", [], []⟩, ·⟩) := rfl
    rw [hasks]
    exact ⟨_, List.mem_map_of_mem hds, rfl, hkept⟩

/-- A pet that is there has a name, whichever of the two ways it is there by. -/
theorem eitherPet_present : Acyclic petSetting.fragments ∧ Written petSetting [] eitherPet ∧
    AlwaysPresent petSetting (.operation .query "Either") [] petSystem.types[0] eitherPet := by
  have hwritten : Written petSetting [] eitherPet := .operation _
  exact ⟨petFragments_acyclic, hwritten,
    (alwaysPresent_iff_covered petFragments_acyclic hwritten _ _).mpr eitherPet_covered⟩

/-! ## A name that may be left out -/

/-- The name of a pet, unless a variable leaves it out. -/
def maybeName : Selection :=
  .spread "Named" [{ name := "include", arguments := [("if", .variable "named")] }]

/-- A directive on a spread leaves out a property that is required. -/
theorem maybeName_not_present :
    ¬ AlwaysPresent petSetting (.operation .query "Maybe") [] petSystem.types[0]
      [.field none "pet" [] [] [maybeName]] := by
  intro h
  have hleads : Leads petSetting [] petSystem.types[0] [.field none "pet" [] [] [maybeName]]
      ⟨"pet", ⟨"pet", [], [maybeName]⟩, []⟩ petSystem.types[1] :=
    ⟨List.mem_singleton_self _, by decide, _, petSystem.types[1], rfl, rfl, by decide, by decide,
      List.mem_singleton_self _⟩
  have hposition : Position petSetting [] (fun _ => false) petSystem.types[0]
      [.field none "pet" [] [] [maybeName]] petSystem.types[1] [maybeName] [maybeName] :=
    .field (.root (List.mem_singleton_self _)) hleads (.field rfl (.nil _))
      (List.mem_singleton_self _)
  have hgroup : (⟨"name", ⟨"name", [], []⟩, []⟩ : Group) ∈
      groupsOf petSetting [] petSystem.types[1] [maybeName] := List.mem_singleton_self _
  obtain ⟨depth, x, hx⟩ := shape_grounded petFragments_acyclic.grounded
    (.operation .query "Maybe") [] petSystem.types[1] [maybeName]
  obtain ⟨ps, -, rfl⟩ := shape_eq_ok.mp hx
  obtain ⟨p, hp, hreq⟩ := (shape_required hx).mpr ⟨_, hgroup, rfl, .inr ⟨rfl, rfl⟩⟩
  obtain ⟨out, seen, hout, hkey⟩ := h _ _ _ _ hposition depth _ _ _ hx "name" p hp hreq
  have hnone : selected petSetting.system petSetting.fragments petSystem.types[1]
      (fun _ => false) [maybeName] = [] := selected_excluded petFragments_acyclic rfl
  obtain ⟨use, huse, -⟩ := List.mem_map.mp hkey
  rw [(hout.similar petFragments_acyclic).mem_iff, hnone] at huse
  cases huse

end SchemaForge.GraphQL
