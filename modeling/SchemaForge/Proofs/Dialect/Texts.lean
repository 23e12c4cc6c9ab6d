import SchemaForge.Proofs.Code.Texts
import SchemaForge.Proofs.Dialect.Steps

/-!
# Other texts in libraries of calls

* `Builder.Natural`: checks and intersections are put together without a look at the texts in them.
* `natural_of_library`: so they are in the three libraries of calls.
* **`Builder.render_mapTexts`**: with other texts, a schema has the same expression, with these texts
  in their places.
-/

namespace SchemaForge

theorem Logged.lift_map {ε ω α β : Type} (f : α → β) (x : Except ε α) :
    (Logged.lift (f <$> x) : Logged ε ω β) = f <$> Logged.lift x := by
  cases x <;> rfl

namespace Dialect

open Code (Call)

variable (r : Replacement)

/-! ## Texts that every library needs -/

theorem quoteValue_mapTexts (v : Value) :
    quoteValue (r.value v) = Code.mapTexts r <$> quoteValue v := by
  rcases r.value_cases v with ⟨s, rfl, h⟩ | ⟨hne, h⟩
  · rfl
  · rw [h]
    unfold quoteValue
    split
    · exact absurd rfl (hne _)
    all_goals rfl

theorem fieldKey_mapTexts (key : Atom) :
    fieldKey (r.atom key) = Code.mapTexts r <$> fieldKey key := by
  cases key with
  | str s => exact congrArg Except.ok (Code.key_mapTexts r s)
  | _ => rfl

theorem bound_mapTexts (call : Call) (write : Value → String) (v : Value) :
    (bound call write v).map (Code.mapTexts r) = bound call write v := by
  unfold bound
  split
  · rfl
  · rw [List.map_singleton, Code.mapTexts_apply]
    rfl

theorem allTexts_mapTexts (values : List Value) :
    allTexts (values.map r.value) = allTexts values := by
  rw [allTexts, allTexts, List.all_map]
  congr 1
  funext v
  rcases r.value_cases v with ⟨s, rfl, h⟩ | ⟨-, h⟩
  · rfl
  · rw [Function.comp_apply, h]

theorem standsForNull_mapTexts (s : Schema) : standsForNull (s.mapTexts r) = standsForNull s := by
  rw [standsForNull, standsForNull, Schema.kind?_mapTexts]

theorem standsForUndefined_mapTexts (s : Schema) :
    standsForUndefined (s.mapTexts r) = standsForUndefined s := by
  rw [standsForUndefined, standsForUndefined, Schema.kind?_mapTexts]

theorem isAbsent_mapTexts (s : Schema) : isAbsent (s.mapTexts r) = isAbsent s := by
  rw [isAbsent, isAbsent, standsForNull_mapTexts, standsForUndefined_mapTexts]

theorem splits_mapTexts (members : List Schema) :
    splits (members.map (Schema.mapTexts r)) = splits members := by
  simp only [splits, List.any_map, Function.comp_def, isAbsent_mapTexts]

theorem filter_isAbsent_mapTexts (members : List Schema) :
    (members.map (Schema.mapTexts r)).filter (!isAbsent ·) =
      (members.filter (!isAbsent ·)).map (Schema.mapTexts r) := by
  rw [List.filter_map]
  simp only [Function.comp_def, isAbsent_mapTexts]

namespace Builder

/-! ## Ways to put schemas together -/

/-- Checks and intersections are put together without a look at the texts in them. -/
structure Natural (b : Builder) : Prop where
  constrain : ∀ base checks, Code.mapTexts r (b.constrain base checks) =
    b.constrain (Code.mapTexts r base) (checks.map (Code.mapTexts r))
  allOf : ∀ codes, Code.mapTexts r (b.allOf codes) = b.allOf (codes.map (Code.mapTexts r))

variable (call : Call) (base : Code) (checks codes : List Code)

theorem mapTexts_chain : Code.mapTexts r (chain base checks) =
    chain (Code.mapTexts r base) (checks.map (Code.mapTexts r)) := by
  rw [chain, Code.mapTexts_append, Code.mapTexts_flatten]
  rfl

theorem mapTexts_pipe : Code.mapTexts r (pipe call base checks) =
    pipe call (Code.mapTexts r base) (checks.map (Code.mapTexts r)) := by
  unfold pipe
  rw [List.isEmpty_map]
  split
  · rfl
  · rw [Code.mapTexts_apply, List.map_cons]

theorem mapTexts_pipeAfter : Code.mapTexts r (pipeAfter call base checks) =
    pipeAfter call (Code.mapTexts r base) (checks.map (Code.mapTexts r)) := by
  unfold pipeAfter
  rw [List.isEmpty_map]
  split
  · rfl
  · rw [Code.mapTexts_append, Code.mapTexts_apply]

theorem mapTexts_together : Code.mapTexts r (together call codes) =
    together call (codes.map (Code.mapTexts r)) := by
  rcases codes with _ | ⟨code, _ | ⟨next, rest⟩⟩
  · exact Code.mapTexts_apply r call []
  · rfl
  · exact Code.mapTexts_apply r call (code :: next :: rest)

theorem mapTexts_nested : Code.mapTexts r (nested call codes) =
    nested call (codes.map (Code.mapTexts r)) := by
  cases codes with
  | nil => rfl
  | cons first rest =>
    rw [List.map_cons]
    unfold nested
    dsimp only
    induction rest generalizing first with
    | nil => rfl
    | cons next rest ih =>
      rw [List.foldl_cons, ih, Code.mapTexts_apply]
      rfl

theorem natural_of_library {lib : Library} {b : Builder} (h : builder? lib = some b) :
    b.Natural r := by
  cases lib <;> cases h
  · exact ⟨mapTexts_chain r, mapTexts_nested r _⟩
  · exact ⟨mapTexts_pipe r _, mapTexts_together r _⟩
  · exact ⟨mapTexts_pipeAfter r _, mapTexts_nested r _⟩

/-! ## Parts of expressions -/

variable {b : Builder}

theorem patternCheck_mapTexts (pattern : Value) :
    b.patternCheck (r.value pattern) = List.map (Code.mapTexts r) <$> b.patternCheck pattern := by
  unfold patternCheck
  rw [r.isGiven_value, quoteValue_mapTexts]
  split
  · simp only [map_eq_pure_bind, bind_assoc, pure_bind, List.map_cons, List.map_nil,
      Code.mapTexts_apply]
  · rfl

theorem oneOf_mapTexts : Code.mapTexts r (b.oneOf codes) = b.oneOf (codes.map (Code.mapTexts r)) :=
  mapTexts_together r b.union codes

theorem absent_mapTexts (hasNull hasUndefined : Bool) (code : Code) :
    Code.mapTexts r (b.absent hasNull hasUndefined code) =
      b.absent hasNull hasUndefined (Code.mapTexts r code) := by
  unfold absent
  split
  · exact Code.mapTexts_apply r b.nullish [code]
  · split
    · exact Code.mapTexts_apply r b.nullable [code]
    · exact Code.mapTexts_apply r b.optional [code]

theorem property_mapTexts (p : Property Schema) (code : Code) :
    b.property (p.mapTexts r) (Code.mapTexts r code) = Code.mapTexts r (b.property p code) := by
  rw [property, property, show (p.mapTexts r).required = p.required from rfl,
    show (p.mapTexts r).absence = p.absence from rfl]
  split
  · rfl
  · cases p.absence with
    | optional => exact (Code.mapTexts_apply r b.optionalProperty [code]).symm
    | nullish => exact (Code.mapTexts_apply r b.nullishProperty [code]).symm

theorem enum_mapTexts (values : List Value) :
    b.enum (values.map r.value) = Code.mapTexts r (b.enum values) := by
  have hvalue : ∀ v, Code.value (r.value v) = Code.mapTexts r (Code.value v) :=
    Code.value_mapTexts r
  unfold enum
  rw [List.isEmpty_map, allTexts_mapTexts]
  split
  · rfl
  · split
    · rw [Code.mapTexts_apply, List.map_map, List.map_map]
      simp only [Function.comp_def, hvalue]
    · rw [oneOf_mapTexts, List.map_map, List.map_map]
      simp only [Function.comp_def, Code.mapTexts_apply, List.map_cons, List.map_nil, hvalue]

theorem ref_mapTexts (ctx : Context) (name : String) :
    Code.mapTexts r (b.ref ctx name) = b.ref ctx name := by
  unfold ref
  split <;> rfl

namespace Natural

variable {r} (hb : b.Natural r)

include hb

theorem string (fmt : Option String) (least most pattern : Value) :
    b.string fmt least most (r.value pattern) =
      Code.mapTexts r <$> b.string fmt least most pattern := by
  unfold Builder.string
  rw [patternCheck_mapTexts]
  simp only [map_eq_pure_bind, bind_assoc, pure_bind, hb.constrain, List.map_append,
    bound_mapTexts, Code.mapTexts_each]
  rfl

theorem numeric (integer : Bool) (least most : Value) :
    Code.mapTexts r (b.numeric integer least most) = b.numeric integer least most := by
  unfold Builder.numeric
  simp only [hb.constrain, List.map_append, bound_mapTexts, Code.mapTexts_each]
  rfl

theorem all (codes : List Code) :
    Code.mapTexts r (b.all codes) = b.all (codes.map (Code.mapTexts r)) := by
  unfold Builder.all
  rw [List.isEmpty_map]
  split
  · rfl
  · exact hb.allOf codes

end Natural

/-! ## Expressions -/

variable {r} {ctx : Context}

variable (ctx) in
/-- With other texts, the schema has the same expression, with these texts in their places. -/
def Follows (b : Builder) (r : Replacement) (s : Schema) : Prop :=
  ∀ depth, b.render ctx depth (s.mapTexts r) = Code.mapTexts r <$> b.render ctx depth s

theorem Follows.all {l : List Schema} (h : ∀ s ∈ l, Follows ctx b r s) (depth : Nat) :
    (l.map (Schema.mapTexts r)).mapM (b.render ctx depth) =
      List.map (Code.mapTexts r) <$> l.mapM (b.render ctx depth) :=
  mapM_map_of_forall fun s hs => h s hs depth

theorem Follows.field {entry : Atom × Property Schema} (h : Follows ctx b r entry.2.schema)
    (depth : Nat) : b.renderField ctx depth (Prod.map r.atom (Property.mapTexts r) entry) =
      Code.Field.mapTexts r <$> b.renderField ctx depth entry := by
  unfold renderField
  simp only [Prod.map_fst, Prod.map_snd]
  rw [show (Property.mapTexts r entry.2).schema = entry.2.schema.mapTexts r from rfl, h depth,
    fieldKey_mapTexts, Logged.lift_map]
  simp only [map_eq_pure_bind, bind_assoc, pure_bind, property_mapTexts]
  rfl

theorem Follows.fields {properties : List (Atom × Property Schema)}
    (h : ∀ entry ∈ properties, Follows ctx b r entry.2.schema) (depth : Nat) :
    b.renderFields ctx depth (Schema.mapTextsOfProperties r properties) =
      List.map (Code.Field.mapTexts r) <$> b.renderFields ctx depth properties := by
  rw [renderFields_eq, renderFields_eq, Schema.mapTextsOfProperties_eq]
  exact mapM_map_of_forall fun entry he => (h entry he).field depth

theorem Follows.extra {extra : Extra Schema} (h : ∀ s, extra = .typed s → Follows ctx b r s)
    (depth : Nat) (body : Code) :
    b.renderExtra ctx depth (Code.mapTexts r body) (Schema.mapTextsOfExtra r extra) =
      Code.mapTexts r <$> b.renderExtra ctx depth body extra := by
  cases extra with
  | unset | allowed | rejected =>
    rw [Schema.mapTextsOfExtra, renderExtra, renderExtra, map_pure, Code.mapTexts_apply]
    rfl
  | typed s =>
    rw [Schema.mapTextsOfExtra, renderExtra, renderExtra, h s rfl depth]
    simp only [map_eq_pure_bind, bind_assoc, pure_bind, Code.mapTexts_apply, List.map_cons,
      List.map_nil]

/-- **With other texts, a schema has the same expression**, with these texts in their places. -/
theorem render_mapTexts (hb : b.Natural r) (s : Schema) : Follows ctx b r s := by
  induction s using Schema.induction with
  | primitive | raw =>
    intro depth
    rw [Schema.mapTexts, render, render]
    rfl
  | string fmt least most pattern =>
    intro depth
    rw [Schema.mapTexts, render, render, hb.string, Logged.lift_map]
  | number integer least most =>
    intro depth
    rw [Schema.mapTexts, render, render, map_pure, hb.numeric]
  | object properties extra _ ihp ihe =>
    intro depth
    rw [Schema.mapTexts, render, render, Follows.fields ihp]
    simp only [map_eq_pure_bind, bind_assoc, pure_bind]
    refine bind_congr fun fields => ?_
    rw [Code.object_mapTexts, Logged.lift_map]
    simp only [map_eq_pure_bind, bind_assoc, pure_bind, Follows.extra ihe]
  | array items _ ih =>
    intro depth
    rw [Schema.mapTexts, render, render, ih]
    simp only [map_eq_pure_bind, bind_assoc, pure_bind, Code.mapTexts_apply, List.map_cons,
      List.map_nil]
  | tuple items _ ih =>
    intro depth
    rw [Schema.mapTexts, Schema.mapTextsOfAll_eq, render, render, renderAll_eq, renderAll_eq,
      Follows.all ih]
    simp only [map_eq_pure_bind, bind_assoc, pure_bind, Code.mapTexts_apply]
  | record key value _ ihk ihv =>
    intro depth
    rw [Schema.mapTexts, render, render, ihk, ihv]
    simp only [map_eq_pure_bind, bind_assoc, pure_bind, Code.mapTexts_apply, List.map_cons,
      List.map_nil]
  | enum values =>
    intro depth
    rw [Schema.mapTexts, render, render, map_pure, enum_mapTexts]
  | literal value =>
    intro depth
    rw [Schema.mapTexts, render, render, map_pure, Code.mapTexts_apply, Code.value_mapTexts]
    rfl
  | union members _ ih =>
    intro depth
    rw [Schema.mapTexts, Schema.mapTextsOfAll_eq, render, render, splits_mapTexts,
      List.isEmpty_map]
    split
    · rfl
    · split
      · rw [renderPresent_eq, renderPresent_eq, filter_isAbsent_mapTexts,
          Follows.all fun s hs => ih s (List.mem_of_mem_filter hs)]
        simp only [map_eq_pure_bind, bind_assoc, pure_bind, absent_mapTexts, oneOf_mapTexts,
          List.any_map, Function.comp_def, standsForNull_mapTexts, standsForUndefined_mapTexts]
      · rw [renderAll_eq, renderAll_eq, Follows.all ih]
        simp only [map_eq_pure_bind, bind_assoc, pure_bind, oneOf_mapTexts]
  | intersection members _ ih =>
    intro depth
    rw [Schema.mapTexts, Schema.mapTextsOfAll_eq, render, render, renderAll_eq, renderAll_eq,
      Follows.all ih]
    simp only [map_eq_pure_bind, bind_assoc, pure_bind, hb.all]
  | ref name =>
    intro depth
    rw [Schema.mapTexts, render, render, map_pure, ref_mapTexts]
  | foreign node =>
    intro depth
    rw [Schema.mapTexts, render, render]
    rfl

end Builder

end Dialect

end SchemaForge
