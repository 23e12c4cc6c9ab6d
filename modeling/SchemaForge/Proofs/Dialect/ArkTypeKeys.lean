import Mathlib.Data.List.Nodup
import SchemaForge.Proofs.Code.Keys
import SchemaForge.Proofs.Dialect.ArkTypeBalance
import SchemaForge.Proofs.Lists

/-!
# Keys of object definitions

The definition of an object has a key for each property and one for the keys beside them. They share
one space: a question mark at the end says that the property may be missing, and two keys are
markers for further keys.

* `Told`, `told`: what keys tell; `Told.ofObject`: what is to be told of an object.
* **`told_eq_iff`**: keys tell of their object exactly when no property that is required has a name
  that says something else; `nodup_keys_iff`: when keys are distinct.
* `Parted`: schemas whose definitions have no keys outside their own brackets;
  **`parted_of_wellTyped`**: well-typed schemas are such.
* **`object_told_iff`**: what the keys in the definition of an object tell.
-/

namespace SchemaForge.Dialect.ArkType

open Code (Call Wording Balanced Keyless Shut Holds LinesHold objectKeys)

/-! ## What keys tell -/

/-- What is told of further keys: that they may be there, that they may not, or that their values
have a definition. -/
inductive Further where
  | accepted
  | rejected
  | typed
  deriving DecidableEq, Repr, Inhabited

/-- What keys tell of an object: the names of its properties, with whether they are required, and
what becomes of further keys. -/
@[ext] structure Told where
  properties : List (String × Bool)
  further : Further
  deriving DecidableEq, Repr

/-- The key of what becomes of further keys. -/
def Further.marker : Further → Option String
  | .accepted => none
  | .rejected => some "+"
  | .typed => some "[string]"

/-- Whether a key is a marker. -/
def isMarker (key : String) : Bool := key == "+" || key == "[string]"

/-- The property of a key: one that may be missing if a question mark ends the key. -/
def readProperty (key : String) : String × Bool :=
  if key.toList.getLast? = some '?' then (String.ofList key.toList.dropLast, false) else (key, true)

/-- What keys tell. -/
def told (keys : List String) : Told where
  properties := (keys.filter (!isMarker ·)).map readProperty
  further :=
    if keys.contains "+" then .rejected else if keys.contains "[string]" then .typed else .accepted

/-! ## Writing keys -/

/-- The key of a property. -/
def keyOf (p : String × Bool) : String := if p.2 then p.1 else p.1 ++ "?"

/-- A property whose key cannot be taken for that of something else. -/
def Faithful (p : String × Bool) : Prop :=
  p.2 → isMarker p.1 = false ∧ p.1.toList.getLast? ≠ some '?'

instance (p : String × Bool) : Decidable (Faithful p) :=
  inferInstanceAs (Decidable (p.2 = true → _ ∧ _))

theorem faithful_optional (name : String) : Faithful (name, false) := nofun

/-- The keys of an object of which something is to be told. -/
def Told.keys (t : Told) : List String := t.properties.map keyOf ++ t.further.marker.toList

theorem toList_keyOf_optional (name : String) :
    (keyOf (name, false)).toList = name.toList ++ ['?'] := by
  simp [keyOf]

theorem readProperty_keyOf {p : String × Bool} :
    isMarker (keyOf p) = false ∧ readProperty (keyOf p) = p ↔ Faithful p := by
  obtain ⟨name, _ | _⟩ := p
  · -- the key ends with a question mark, as no marker does
    have hlast : (keyOf (name, false)).toList.getLast? = some '?' := by
      rw [toList_keyOf_optional, List.getLast?_concat]
    have hmarker : isMarker (keyOf (name, false)) = false := by
      rw [isMarker, Bool.or_eq_false_iff, beq_eq_false_iff_ne, beq_eq_false_iff_ne]
      constructor
      all_goals
        intro h
        rw [h] at hlast
        exact absurd hlast (by decide)
    refine iff_of_true ⟨hmarker, ?_⟩ (faithful_optional name)
    rw [readProperty, if_pos hlast, toList_keyOf_optional, List.dropLast_concat,
      String.ofList_toList]
  · rw [readProperty, Faithful, keyOf, if_pos rfl]
    split <;> simp_all

theorem isMarker_marker {f : Further} {key : String} (h : key ∈ f.marker.toList) :
    isMarker key = true := by
  cases f with
  | accepted => cases h
  | rejected | typed =>
    rw [List.mem_singleton.mp h]
    decide

theorem properties_told (t : Told) : (told t.keys).properties =
    ((t.properties.map keyOf).filter (!isMarker ·)).map readProperty := by
  have hmarker : t.further.marker.toList.filter (!isMarker ·) = [] :=
    List.filter_eq_nil_iff.mpr fun key hkey => by simp [isMarker_marker hkey]
  rw [told, Told.keys, List.filter_append, hmarker, List.append_nil]

theorem further_told {t : Told} (h : ∀ key ∈ t.properties.map keyOf, isMarker key = false) :
    (told t.keys).further = t.further := by
  have hplus : "+" ∉ t.properties.map keyOf := fun hm => absurd (h _ hm) (by decide)
  have hany : "[string]" ∉ t.properties.map keyOf := fun hm => absurd (h _ hm) (by decide)
  simp only [told, Told.keys, List.contains_eq_mem, List.mem_append, hplus, hany, false_or]
  cases t.further <;> rfl

/-- **Keys tell of their object** exactly when all of its properties are faithful. -/
theorem told_eq_iff {t : Told} : told t.keys = t ↔ ∀ p ∈ t.properties, Faithful p := by
  constructor
  · intro h p hp
    have hread := (properties_told t).symm.trans (congrArg Told.properties h)
    -- a property whose key is taken for a marker is missing from what is told
    have hlength := congrArg List.length hread
    rw [List.length_map, ← List.length_map keyOf, List.length_filter_eq_length_iff] at hlength
    rw [List.filter_eq_self.mpr hlength, List.map_map] at hread
    refine readProperty_keyOf.mp
      ⟨?_, List.map_inj_left.mp (hread.trans (List.map_id _).symm) p hp⟩
    simpa using hlength _ (List.mem_map_of_mem hp)
  · intro h
    have hnot : ∀ key ∈ t.properties.map keyOf, isMarker key = false :=
      List.forall_mem_map.mpr fun p hp => (readProperty_keyOf.mpr (h p hp)).1
    have hsame : (t.properties.map keyOf).filter (!isMarker ·) = t.properties.map keyOf :=
      List.filter_eq_self.mpr fun key hkey => by simp [hnot key hkey]
    have hread : (t.properties.map keyOf).map readProperty = t.properties := by
      rw [List.map_map]
      exact (List.map_congr_left fun p hp => (readProperty_keyOf.mpr (h p hp)).2).trans
        (List.map_id _)
    have hproperties : (told t.keys).properties = t.properties := by
      rw [properties_told, hsame, hread]
    obtain ⟨ps, f⟩ := t
    exact Told.ext hproperties (further_told hnot)

/-! ## Distinct keys -/

theorem keyOf_inj {name name' : String} {required : Bool} :
    keyOf (name, required) = keyOf (name', required) ↔ name = name' := by
  cases required <;> simp [keyOf]

/-- A property with a key of its own: if it is required, its name is neither the marker nor that of
a property that may be missing, with a question mark behind. -/
def Told.Apart (t : Told) (p : String × Bool) : Prop :=
  p.2 → t.further.marker ≠ some p.1 ∧ ∀ q ∈ t.properties, q.2 = false → p.1 ≠ q.1 ++ "?"

/-- **When keys are distinct.** -/
theorem nodup_keys_iff {t : Told} (h : (t.properties.map Prod.fst).Nodup) :
    t.keys.Nodup ↔ ∀ p ∈ t.properties, t.Apart p := by
  have hmarker : t.further.marker.toList.Nodup := by cases t.further <;> simp [Further.marker]
  rw [Told.keys, List.nodup_append', and_iff_right hmarker,
    List.nodup_map_iff_inj_on (List.Nodup.of_map _ h)]
  constructor
  · rintro ⟨hinj, hdisjoint⟩ ⟨name, required⟩ hp (rfl : required = true)
    refine ⟨fun hm => hdisjoint (List.mem_map_of_mem hp) (by simp [keyOf, hm]), ?_⟩
    rintro ⟨other, required⟩ hq (rfl : required = false) (rfl : name = other ++ "?")
    exact Bool.noConfusion (congrArg Prod.snd (hinj _ hp _ hq rfl))
  · intro hapart
    refine ⟨?_, ?_⟩
    · rintro ⟨name, required⟩ hp ⟨name', required'⟩ hq heq
      cases required <;> cases required'
      · rw [keyOf_inj.mp heq]
      · exact absurd heq.symm ((hapart _ hq rfl).2 _ hp rfl)
      · exact absurd heq ((hapart _ hp rfl).2 _ hq rfl)
      · rw [keyOf_inj.mp heq]
    · rintro key hkey hm
      obtain ⟨⟨name, _ | _⟩, hp, rfl⟩ := List.mem_map.mp hkey
      · have hnot : isMarker (keyOf (name, false)) = false :=
          (readProperty_keyOf.mpr (faithful_optional _)).1
        exact absurd (isMarker_marker hm) (by simp [hnot])
      · exact (hapart _ hp rfl).1 (by simpa [keyOf] using hm)

theorem Faithful.apart {p : String × Bool} (h : Faithful p) (t : Told) : t.Apart p := by
  intro hp
  obtain ⟨hmarker, hlast⟩ := h hp
  refine ⟨fun hm => ?_, fun q _ _ hq => hlast ?_⟩
  · rw [isMarker_marker (Option.mem_toList.mpr hm)] at hmarker
    cases hmarker
  · rw [hq, String.toList_append]
    exact List.getLast?_concat

/-! ## Values without keys of their own -/

namespace Definition

variable {d : Definition}

/-- Whatever stands in a literal has no keys; other code must have none outside its own brackets. -/
def KeyFree : Definition → Prop
  | .text _ => True
  | .literal code => Keyless code
  | .expression code => Keyless code

theorem KeyFree.asValue (h : d.KeyFree) : Shut d.asValue := by
  cases d with
  | text w => exact Code.shut_quoted w
  | literal code => exact h.shut
  | expression code => exact h.shut

theorem KeyFree.asExpression (h : d.KeyFree) (hs : d.Sound) : Keyless d.asExpression := by
  cases d with
  | text w => exact Code.keyless_between rfl rfl (Code.balanced_quoted w)
  | literal code => exact Code.keyless_between rfl rfl hs
  | expression code => exact h

/-- An expression with a method call behind it. -/
theorem KeyFree.method (h : d.KeyFree) (hs : d.Sound) {words : String}
    (hw : Code.Scanner.quietScan Code.Scanner.top words.toList = some Code.Scanner.top) :
    KeyFree (.expression (d.asExpression ++ words)) :=
  (h.asExpression hs).append (Code.keyless_plain hw)

theorem KeyFree.orNull (h : d.KeyFree) (hs : d.Sound) : d.orNull.KeyFree := by
  cases d with
  | text w => exact True.intro
  | literal code => exact KeyFree.method (d := .literal code) h hs rfl
  | expression code => exact KeyFree.method (d := .expression code) h hs rfl

end Definition

open Definition

theorem keyFree_array {d : Definition} (h : d.KeyFree) (hs : d.Sound) : (array d).KeyFree := by
  cases d with
  | text w => exact True.intro
  | literal code => exact KeyFree.method (d := .literal code) h hs rfl
  | expression code => exact KeyFree.method (d := .expression code) h hs rfl

theorem keyFree_property (p : Property Schema) {d : Definition} (h : d.KeyFree) (hs : d.Sound) :
    (property p d).KeyFree := by
  unfold property
  split
  · exact h
  · split
    · exact h
    · exact h.orNull hs

theorem keyFree_combination (c : Combination) {ds : List Definition} (h : ∀ d ∈ ds, d.KeyFree)
    (hs : ∀ d ∈ ds, d.Sound) : (c.apply ds).KeyFree := by
  unfold Combination.apply
  split
  · exact True.intro
  · exact h _ (List.mem_singleton.mpr rfl)
  · rename_i d rest _
    rw [List.forall_mem_cons] at h hs
    have hopen : Code.Scanner.quietScan Code.Scanner.top c.method.opening.toList =
        some ⟨.code, [')', '\x7d']⟩ := by cases c <;> rfl
    have hclose : Code.Scanner.quietScan ⟨.code, [')', '\x7d']⟩ c.method.closing.toList =
        some Code.Scanner.top := by cases c <;> rfl
    have hbetween : Code.scanWords [] c.method.between = some [] := by cases c <;> rfl
    split
    · exact True.intro
    · refine Keyless.append (h.1.asExpression hs.1) ?_
      rw [List.flatMap_def]
      refine Code.keyless_flatten (List.forall_mem_map.mpr fun next hn => ?_)
      exact Code.keyless_apply hopen hbetween hclose
        (List.forall_mem_singleton.mpr (hs.2 next hn).asExpression)

theorem keyFree_enum {values : List Value} (hv : ∀ v ∈ values, v.isScalar) :
    (enum values).KeyFree := by
  unfold enum
  split
  · exact True.intro
  · exact Code.keyless_apply rfl rfl rfl
      (List.forall_mem_map.mpr fun v h => Code.balanced_value (hv v h))

theorem keyFree_literal (v : Value) : (literal v).KeyFree := by
  unfold literal
  split
  · split
    · exact Code.keyless_apply rfl rfl rfl (List.forall_mem_singleton.mpr (Code.balanced_value rfl))
    · exact True.intro
  · exact True.intro

section Rendered

variable {ctx : Context}

theorem keyFree_ref (hc : ∀ name, ctx.customScalar? name = none) {name : String}
    (hn : Name.isIdentifier name) {d : Definition} (h : (ref ctx name).outcome = .ok d) :
    d.KeyFree := by
  unfold ref at h
  rw [hc] at h
  dsimp only at h
  split at h
  · cases h
    exact True.intro
  · cases h
    refine Code.keyless_plain (Code.Scanner.quietScan_of_not_mark fun c hc => ?_)
    exact Code.isMark_of_isWordChar (Code.wordy_schemaVar hn c hc)

theorem sound_of_render (hc : ∀ name, ctx.customScalar? name = none) {s : Schema}
    (hs : s.WellTyped) {depth : Nat} {d : Definition} (h : (render ctx depth s).outcome = .ok d) :
    d.Sound := by
  obtain ⟨d', h', hsound⟩ := render_sound hc hs depth
  obtain rfl := Except.ok.inj (h.symm.trans h')
  exact hsound

theorem keyFree_members (hc : ∀ name, ctx.customScalar? name = none) (c : Combination)
    {members : List Schema} (hs : ∀ s ∈ members, s.WellTyped) {depth : Nat}
    (ih : ∀ s ∈ members, ∀ d, (render ctx depth s).outcome = .ok d → d.KeyFree)
    {ds : List Definition} (h : (members.mapM (render ctx depth)).outcome = .ok ds) :
    (c.apply ds).KeyFree := by
  have hfrom : ∀ d ∈ ds, ∃ s ∈ members, (render ctx depth s).outcome = .ok d := fun d hd =>
    exists_of_mem_right (Logged.outcome_mapM_eq_ok.mp h) hd
  refine keyFree_combination c (fun d hd => ?_) (fun d hd => ?_)
  · obtain ⟨s, hm, hrender⟩ := hfrom d hd
    exact ih s hm d hrender
  · obtain ⟨s, hm, hrender⟩ := hfrom d hd
    exact sound_of_render hc (hs s hm) hrender

/-- **The definition of a well-typed schema** has no keys outside its own brackets. -/
theorem render_keyFree (hc : ∀ name, ctx.customScalar? name = none) {s : Schema}
    (hs : s.WellTyped) : ∀ depth d, (render ctx depth s).outcome = .ok d → d.KeyFree := by
  induction hs with
  | primitive | number =>
    intro depth d h
    rw [render] at h
    cases h
    exact True.intro
  | string =>
    intro depth d h
    rw [render, Logged.outcome_lift, string] at h
    obtain ⟨ws, -, h⟩ := except_bind_eq_ok.mp h
    cases h
    exact True.intro
  | object hk hd hs he _ _ _ =>
    intro depth d h
    obtain ⟨lines, hlines, hbal⟩ :=
      properties_ok hk hd fun entry hm => render_sound hc (hs entry hm) (depth + 1)
    obtain ⟨more, hmore, hbal'⟩ := extra_ok fun s h => render_sound hc (he s h) (depth + 1)
    rw [render, Logged.outcome_bind hlines, Logged.outcome_bind hmore] at h
    cases h
    exact Code.keyless_braces (List.forall_mem_append.mpr ⟨hbal, hbal'⟩) depth
  | array hs _ ih =>
    intro depth d h
    obtain ⟨d', hd', hsound⟩ := render_sound hc hs depth
    rw [render, Logged.outcome_bind hd'] at h
    cases h
    exact keyFree_array (ih depth d' hd') hsound
  | tuple hs _ ih =>
    intro depth d h
    obtain ⟨ds, hds, hsound⟩ :=
      Logged.outcome_mapM_forall fun s hm => render_sound hc (hs s hm) depth
    rw [render, renderAll_eq, Logged.outcome_bind hds] at h
    cases h
    exact Code.keyless_apply rfl rfl rfl (List.forall_mem_map.mpr fun d hd => (hsound d hd).asValue)
  | record hk hv _ ihk ihv =>
    intro depth d h
    obtain ⟨k, hk, -⟩ := render_sound hc hk depth
    obtain ⟨v, hv, hsound⟩ := render_sound hc hv (depth + 1)
    rw [render, Logged.outcome_bind hk, Logged.outcome_bind hv] at h
    cases h
    exact Code.keyless_apply rfl rfl rfl (List.forall_mem_cons.mpr
      ⟨Code.balanced_quoted _, List.forall_mem_singleton.mpr hsound.asValue⟩)
  | enum hv =>
    intro depth d h
    rw [render] at h
    cases h
    exact keyFree_enum hv
  | literal =>
    intro depth d h
    rw [render] at h
    cases h
    exact keyFree_literal _
  | union hs _ ih =>
    intro depth d h
    rw [render, renderAll_eq] at h
    obtain ⟨ds, hds, h⟩ := Logged.outcome_bind_eq_ok.mp h
    cases h
    exact keyFree_members hc .or hs (fun s hm => ih s hm depth) hds
  | intersection hs _ ih =>
    intro depth d h
    rw [render, renderAll_eq] at h
    obtain ⟨ds, hds, h⟩ := Logged.outcome_bind_eq_ok.mp h
    cases h
    exact keyFree_members hc .and hs (fun s hm => ih s hm depth) hds
  | ref hn =>
    intro depth d h
    rw [render] at h
    exact keyFree_ref hc hn h

end Rendered

/-- A property whose schema has a definition, which is a value without keys of its own. -/
def Parted (ctx : Context) (depth : Nat) (p : Property Schema) : Prop :=
  ∃ d, (render ctx depth p.schema).outcome = .ok d ∧ Shut (property p d).asValue

/-- **Properties of well-typed schemas** have values without keys of their own. -/
theorem parted_of_wellTyped {ctx : Context} (hc : ∀ name, ctx.customScalar? name = none)
    {p : Property Schema} (hs : p.schema.WellTyped) (depth : Nat) : Parted ctx depth p := by
  obtain ⟨d, hd, hsound⟩ := render_sound hc hs depth
  exact ⟨d, hd, (keyFree_property p (render_keyFree hc hs depth d hd) hsound).asValue⟩

/-! ## Lines of an object -/

/-- The comment of a text or of nothing has no key. -/
theorem linesHold_commentedLine {d : Value} (hd : d.isTextOrNull) (depth : Nat) : ∃ doc,
    Code.comment d (Code.indentation depth) = .ok doc ∧
      ∀ line keys, Holds line keys → LinesHold (Code.commentedLine doc line) keys := by
  rcases Code.comment_cases hd (Code.indentation depth) with hdoc | ⟨s, hs, hdoc⟩
  · exact ⟨[], hdoc, fun line keys h => h.linesHold⟩
  · have hcomment := Code.holds_comment hs (Code.indentation_blank depth)
    exact ⟨_, hdoc, fun line keys h => hcomment.linesHold.append h.linesHold⟩

theorem renderProperty_keys {ctx : Context} {depth : Nat} (name : String) {p : Property Schema}
    (hd : p.description.isTextOrNull) (hs : Parted ctx depth p) :
    ∃ lines, (renderProperty ctx depth (.str name, p)).outcome = .ok lines ∧
      LinesHold lines [keyOf (name, p.required)] := by
  obtain ⟨d, hrender, hshut⟩ := hs
  obtain ⟨doc, hdoc, hlines⟩ := linesHold_commentedLine hd depth
  let w : Wording := .key name :: if p.required then [] else [.own "?"]
  have hw : w.text = keyOf (name, p.required) := by
    cases hp : p.required <;> simp [w, hp, Code.Wording.text, Code.Stretch.text, keyOf]
  refine ⟨Code.commentedLine doc ([.plain (Code.indentation depth)] ++
    ([.quoted w, .plain ": "] ++ ((property p d).asValue ++ [.plain ","]))), ?_, ?_⟩
  · rw [renderProperty, Logged.outcome_bind hrender, Logged.outcome_lift, propertyLines, hdoc]
    simp [bind, Except.bind, propertyKey, pure, Except.pure, w]
  · rw [← hw]
    exact hlines _ _ (Code.holds_line depth w hshut)

theorem renderProperties_cons (ctx : Context) (depth : Nat) (entry : Atom × Property Schema)
    (rest : List (Atom × Property Schema)) : renderProperties ctx depth (entry :: rest) = (do
      let lines ← renderProperty ctx depth entry
      return lines ++ (← renderProperties ctx depth rest)) := by
  rw [renderProperties, renderProperty]
  simp only [bind_assoc]

theorem renderProperties_keys {ctx : Context} {depth : Nat}
    {properties : List (String × Property Schema)}
    (hd : ∀ entry ∈ properties, entry.2.description.isTextOrNull)
    (hs : ∀ entry ∈ properties, Parted ctx depth entry.2) :
    ∃ lines, (renderProperties ctx depth (properties.map (Prod.map .str id))).outcome = .ok lines ∧
      LinesHold lines (properties.map fun entry => keyOf (entry.1, entry.2.required)) := by
  induction properties with
  | nil => exact ⟨[], by rw [List.map_nil, renderProperties]; rfl, Code.linesHold_nil⟩
  | cons entry properties ih =>
    obtain ⟨name, p⟩ := entry
    rw [List.forall_mem_cons] at hd hs
    obtain ⟨lines, hlines, hkeys⟩ := renderProperty_keys name hd.1 hs.1
    obtain ⟨rest, hrest, hkeys'⟩ := ih hd.2 hs.2
    refine ⟨lines ++ rest, ?_, hkeys.append hkeys'⟩
    rw [List.map_cons, renderProperties_cons, Prod.map_apply, id_eq, Logged.outcome_bind hlines,
      Logged.outcome_bind hrest, Logged.outcome_pure]

/-- What an object says of further keys, as far as it is told. Further keys are accepted where
nothing is said of them, so code says nothing either where they are allowed, and the two are not
told apart. -/
def Further.ofExtra : Extra Schema → Further
  | .unset | .allowed => .accepted
  | .rejected => .rejected
  | .typed _ => .typed

theorem renderExtra_keys {ctx : Context} {depth : Nat} {extra : Extra Schema}
    (h : ∀ s, extra = .typed s → Parted ctx depth { schema := s }) :
    ∃ lines, (renderExtra ctx depth extra).outcome = .ok lines ∧
      LinesHold lines (Further.ofExtra extra).marker.toList := by
  cases extra with
  | unset | allowed => exact ⟨[], by rw [renderExtra]; rfl, Code.linesHold_nil⟩
  | rejected =>
    have hline := Code.holds_line depth [.own "+"] (Code.shut_quoted [.own "reject"])
    have hwords : "\"+\": \"reject\"," =
        Code.quote "+" ++ (": " ++ (Code.quote "reject" ++ ",")) := by decide
    refine ⟨_, by rw [renderExtra]; rfl, (hline.of_text ?_).linesHold⟩
    simp [Code.text, Code.Piece.text, Code.Wording.text, Code.Stretch.text, hwords]
  | typed s =>
    obtain ⟨d, hd, hshut⟩ := h s rfl
    have hvalue : Shut d.asValue := hshut
    have hline := Code.holds_line depth [.own "[string]"] hvalue
    have hwords : "\"[string]\": " = Code.quote "[string]" ++ ": " := by decide
    refine ⟨_, by rw [renderExtra, Logged.outcome_bind hd]; rfl, (hline.of_text ?_).linesHold⟩
    simp [Code.text, Code.Piece.text, Code.Wording.text, Code.Stretch.text, hwords,
      String.append_assoc]

/-- What is to be told of an object. -/
def Told.ofObject (properties : List (String × Property Schema)) (extra : Extra Schema) : Told where
  properties := properties.map fun entry => (entry.1, entry.2.required)
  further := .ofExtra extra

/-- **The definition of an object** whose parts have one, and its keys. -/
theorem render_object_keys (ctx : Context) (depth : Nat)
    {properties : List (String × Property Schema)} {extra : Extra Schema} (d : Value)
    (hd : ∀ entry ∈ properties, entry.2.description.isTextOrNull)
    (hs : ∀ entry ∈ properties, Parted ctx (depth + 1) entry.2)
    (he : ∀ s, extra = .typed s → Parted ctx (depth + 1) { schema := s }) :
    ∃ code, (render ctx depth (.object (properties.map (Prod.map .str id)) extra d)).outcome =
        .ok (.literal code) ∧
      objectKeys (Code.text code) = (Told.ofObject properties extra).keys := by
  obtain ⟨lines, hlines, hkeys⟩ := renderProperties_keys hd hs
  obtain ⟨more, hmore, hkeys'⟩ := renderExtra_keys he
  refine ⟨Code.braces (lines ++ more) depth, ?_, ?_⟩
  · rw [render, Logged.outcome_bind hlines, Logged.outcome_bind hmore, Logged.outcome_pure]
  · rw [Code.objectKeys_braces (hkeys.append hkeys'), Told.keys, Told.ofObject, List.map_map]
    rfl

/-- **Main statement.** The values of an object having no keys of their own, the object has a
definition, in whose text there is a key for each property, in order, and a marker unless further
keys are accepted. The keys tell of the object exactly when all properties are faithful: none that
is required has a name that ends with a question mark or is a marker. Then they are distinct; in
general they are exactly when each property has a key of its own. -/
theorem object_told_iff (ctx : Context) (depth : Nat) {properties : List (String × Property Schema)}
    {extra : Extra Schema} (d : Value) (hn : (properties.map Prod.fst).Nodup)
    (hd : ∀ entry ∈ properties, entry.2.description.isTextOrNull)
    (hs : ∀ entry ∈ properties, Parted ctx (depth + 1) entry.2)
    (he : ∀ s, extra = .typed s → Parted ctx (depth + 1) { schema := s }) :
    ∃ code, (render ctx depth (.object (properties.map (Prod.map .str id)) extra d)).outcome =
        .ok (.literal code) ∧
      objectKeys (Code.text code) = (Told.ofObject properties extra).keys ∧
      (told (objectKeys (Code.text code)) = .ofObject properties extra ↔
        ∀ p ∈ (Told.ofObject properties extra).properties, Faithful p) ∧
      (told (objectKeys (Code.text code)) = .ofObject properties extra →
        (objectKeys (Code.text code)).Nodup) ∧
      ((objectKeys (Code.text code)).Nodup ↔
        ∀ p ∈ (Told.ofObject properties extra).properties,
          (Told.ofObject properties extra).Apart p) := by
  obtain ⟨code, hcode, hkeys⟩ := render_object_keys ctx depth d hd hs he
  have hdistinct : ((Told.ofObject properties extra).properties.map Prod.fst).Nodup := by
    rwa [Told.ofObject, List.map_map]
  refine ⟨code, hcode, hkeys, ?_⟩
  rw [hkeys, told_eq_iff, nodup_keys_iff hdistinct]
  exact ⟨.rfl, fun h p hp => (h p hp).apart _, .rfl⟩

/-- Names that look like keys of something else, each of a property that may be missing; the one
that is required has a quote, a backslash and a line feed in it. -/
def awkward : List (String × Property Schema) :=
  [("+", { schema := .anyNumber true, required := false, absence := .optional }),
    ("[string]", { schema := .array (.text none) .null, required := false }),
    ("a", { schema := .ref "User" .null, required := false, description := .str "A link.\n*/" }),
    ("a?", { schema := .boolean, required := false, absence := .optional }),
    ("?\"\\\n", { schema := .raw "custom(\"b?\": 1)" .null }), ("", { schema := .null })]

theorem awkward_told : (awkward.map Prod.fst).Nodup ∧
    (∀ p ∈ (Told.ofObject awkward (.typed .boolean)).properties, Faithful p) ∧
    ∃ code, (render default 0 (.object (awkward.map (Prod.map .str id))
        (.typed .boolean) .null)).outcome = .ok (.literal code) ∧
      objectKeys (Code.text code) = ["+?", "[string]?", "a?", "a??", "?\"\\\n", "", "[string]"] ∧
      told (objectKeys (Code.text code)) = .ofObject awkward (.typed .boolean) ∧
      (objectKeys (Code.text code)).Nodup := by
  have hn : (awkward.map Prod.fst).Nodup := by decide
  have hf : ∀ p ∈ (Told.ofObject awkward (.typed .boolean)).properties, Faithful p := by
    decide
  have hc := @customScalar?_eq_none default rfl
  have hs : ∀ entry ∈ awkward, Parted default 1 entry.2 := by
    simp only [awkward, List.forall_mem_cons, List.not_mem_nil, false_imp_iff, implies_true,
      and_true]
    refine ⟨parted_of_wellTyped hc (.number rfl rfl rfl) 1,
      parted_of_wellTyped hc (.array (.string rfl rfl rfl rfl) rfl) 1,
      parted_of_wellTyped hc (.ref (by decide) rfl) 1,
      parted_of_wellTyped hc (.primitive rfl) 1, ?_, parted_of_wellTyped hc (.primitive rfl) 1⟩
    -- the raw code has a literal before a colon, but in brackets of its own
    exact ⟨_, by rw [render]; rfl, (Code.keyless_plain rfl).shut⟩
  have he : ∀ s, Extra.typed Schema.boolean = .typed s → Parted default 1 { schema := s } := by
    rintro _ ⟨⟩
    exact parted_of_wellTyped hc (.primitive rfl) 1
  obtain ⟨code, hcode, hkeys, htold, hdistinct, -⟩ :=
    object_told_iff default 0 .null hn (by decide) hs he
  exact ⟨hn, hf, code, hcode, hkeys, htold.mpr hf, hdistinct (htold.mpr hf)⟩

/-- A property that may be missing, and one that must not. -/
def clashing : List (String × Property Schema) :=
  [("a", { schema := .text none, required := false, absence := .optional }),
    ("a?", { schema := .text none })]

/-- Both have the same key, and nothing is told of the second one. -/
theorem clashing_same_key : (clashing.map Prod.fst).Nodup ∧
    ∃ code, (render default 0 (.object (clashing.map (Prod.map .str id)) .unset .null)).outcome =
        .ok (.literal code) ∧
      objectKeys (Code.text code) = ["a?", "a?"] ∧
      told (objectKeys (Code.text code)) ≠ .ofObject clashing .unset := by
  have hc := @customScalar?_eq_none default rfl
  have hs : ∀ entry ∈ clashing, Parted default 1 entry.2 := by
    simp only [clashing, List.forall_mem_cons, List.not_mem_nil, false_imp_iff, implies_true,
      and_true]
    exact ⟨parted_of_wellTyped hc (.string rfl rfl rfl rfl) 1,
      parted_of_wellTyped hc (.string rfl rfl rfl rfl) 1⟩
  have hd : ∀ entry ∈ clashing, entry.2.description.isTextOrNull := by decide
  obtain ⟨code, hcode, hkeys⟩ := @render_object_keys default 0 clashing .unset .null hd hs nofun
  refine ⟨by decide, code, hcode, hkeys, ?_⟩
  rw [hkeys]
  decide

end SchemaForge.Dialect.ArkType
