import SchemaForge.Proofs.Dialect.References

/-!
# References in definitions

ArkType writes the references of a schema in order too, but a key of a record only enters its
definition as a text. So every reference outside of such keys is written, and nothing else is
written than references of the schema.

* `Schema.outerRefs`: the references outside of the keys of records.
* `ArkType.Definition.references`: what a definition of any form refers to.
* **`ArkType.render_references`**: the references of the definition of a schema, and one warning
  for each reference to a later constant.
-/

namespace SchemaForge

namespace Schema

/-! ## References outside of keys -/

mutual

/-- The names that a schema refers to outside of the keys of records, in the order of their
occurrence. -/
def outerRefs : Schema → List String
  | .ref name _ => [name]
  | .object properties extra _ => outerRefsOfProperties properties ++ outerRefsOfExtra extra
  | .array items _ => items.outerRefs
  | .tuple items _ => outerRefsOfAll items
  | .record _ value _ => value.outerRefs
  | .union members _ => outerRefsOfAll members
  | .intersection members _ => outerRefsOfAll members
  | .primitive .. | .string .. | .number .. | .enum .. | .literal .. | .raw ..
  | .foreign _ => []

/-- The names in a list of schemas. -/
def outerRefsOfAll : List Schema → List String
  | [] => []
  | s :: rest => s.outerRefs ++ outerRefsOfAll rest

/-- The names in the properties of an object. -/
def outerRefsOfProperties : List (Atom × Property Schema) → List String
  | [] => []
  | (_, p) :: rest => p.schema.outerRefs ++ outerRefsOfProperties rest

/-- The names in what an object says of further keys. -/
def outerRefsOfExtra : Extra Schema → List String
  | .typed s => s.outerRefs
  | .unset | .allowed | .rejected => []

end

theorem outerRefsOfAll_eq : ∀ l : List Schema, outerRefsOfAll l = l.flatMap outerRefs
  | [] => rfl
  | s :: l => by rw [outerRefsOfAll, outerRefsOfAll_eq l, List.flatMap_cons]

theorem outerRefsOfProperties_eq : ∀ l : List (Atom × Property Schema),
    outerRefsOfProperties l = l.flatMap fun entry => entry.2.schema.outerRefs
  | [] => rfl
  | (_, _) :: l => by
    rw [outerRefsOfProperties, outerRefsOfProperties_eq l, List.flatMap_cons]

end Schema

namespace Dialect.ArkType

open Code (references Closed Wording)

/-! ## Wordings -/

@[simp] theorem missing_nil : Wording.missing [] = [] := rfl

@[simp] theorem missing_append (w₁ w₂ : Wording) :
    Wording.missing (w₁ ++ w₂) = w₁.missing ++ w₂.missing := List.filterMap_append

@[simp] theorem missing_own (words : String) (w : Wording) :
    Wording.missing (.own words :: w) = w.missing := rfl

theorem wording_join_cons (between : String) (w next : Wording) (rest : List Wording) :
    Wording.join between (w :: next :: rest)
      = w ++ .own between :: Wording.join between (next :: rest) := rfl

@[simp] theorem missing_join (between : String) : ∀ l : List Wording,
    (Wording.join between l).missing = l.flatMap Wording.missing
  | [] => rfl
  | [w] => (List.flatMap_singleton ..).symm
  | w :: next :: rest => by
    rw [wording_join_cons, missing_append, missing_own, missing_join between (next :: rest),
      @List.flatMap_cons _ _ w]

@[simp] theorem missing_group (c : Char) (w : Wording) : (group c w).missing = w.missing := by
  unfold group
  split
  · simp
  · rfl

@[simp] theorem missing_operand (c : Combination) (w : Wording) :
    (c.operand w).missing = w.missing := by
  cases c
  · rfl
  · exact missing_group _ _

/-! ## Definitions -/

namespace Definition

/-- The names that a definition refers to, each with what is written for its constant. -/
def references : Definition → List (String × String)
  | .text w => w.missing.map (·, Code.missingWord)
  | .literal code => code.references
  | .expression code => code.references

@[simp] theorem references_asExpression (d : Definition) :
    d.asExpression.references = d.references := by
  cases d with
  | text w =>
    rw [asExpression, Code.references_append, Code.references_append]
    exact (List.append_nil _).trans (List.append_nil _)
  | literal code =>
    rw [asExpression, Code.references_append, Code.references_append]
    exact List.append_nil _
  | expression code => rfl

@[simp] theorem references_asValue (d : Definition) : d.asValue.references = d.references := by
  cases d with
  | text w => exact List.append_nil _
  | literal code => rfl
  | expression code => rfl

@[simp] theorem references_orNull (d : Definition) : d.orNull.references = d.references := by
  have expression : ∀ d : Definition, Definition.references
      (.expression (d.asExpression ++ (".or(\"null\")" : Code))) = d.references := fun d => by
    rw [references, Code.references_append, references_asExpression]
    exact List.append_nil _
  cases d with
  | text w =>
    simp [orNull, references]
  | literal code => exact expression (.literal code)
  | expression code => exact expression (.expression code)

theorem mapM_wording?_eq_some : ∀ {ds : List Definition} {ws : List Wording},
    ds.mapM wording? = some ws → ds = ws.map .text
  | [], ws, h => by
    rw [List.mapM_nil] at h
    cases h
    rfl
  | d :: ds, ws, h => by
    rw [List.mapM_cons] at h
    obtain ⟨w, hw, h⟩ := Option.bind_eq_some_iff.mp h
    obtain ⟨rest, hrest, h⟩ := Option.bind_eq_some_iff.mp h
    cases h
    rw [mapM_wording?_eq_some hrest, List.map_cons]
    cases d <;> cases hw
    rfl

end Definition

theorem references_array (d : Definition) : (array d).references = d.references := by
  have expression : ∀ d : Definition, Definition.references
      (.expression (d.asExpression ++ (".array()" : Code))) = d.references := fun d => by
    rw [Definition.references, Code.references_append, Definition.references_asExpression]
    exact List.append_nil _
  cases d with
  | text w =>
    rw [array, Definition.references, missing_append, missing_group, Definition.references]
    exact congrArg _ (List.append_nil _)
  | literal code => exact expression (.literal code)
  | expression code => exact expression (.expression code)

theorem references_property (p : Property Schema) (d : Definition) :
    (property p d).references = d.references := by
  unfold property
  split
  · rfl
  · split
    · rfl
    · exact d.references_orNull

/-- Definitions put together refer to what each of them refers to. -/
theorem references_combination (c : Combination) (ds : List Definition) :
    (c.apply ds).references = ds.flatMap Definition.references := by
  unfold Combination.apply
  split
  · rfl
  · rw [List.flatMap_singleton]
  · rename_i d rest _
    split
    · rename_i ws hws
      rw [Definition.mapM_wording?_eq_some hws, Definition.references, missing_join,
        List.flatMap_map, List.flatMap_map, List.map_flatMap]
      simp only [missing_operand, Definition.references]
    · rw [Definition.references, Code.references_append, Definition.references_asExpression,
        List.flatMap_cons, Code.references, List.flatMap_assoc]
      have next : ∀ d : Definition, (c.method.apply [d.asExpression]).flatMap Code.Piece.references
          = d.references := fun d => by
        rw [← Code.references, Code.Call.references_apply, List.flatMap_singleton,
          Definition.references_asExpression]
      simp only [next]

/-! ## Schemas without parts -/

theorem missing_boundWording (opening : String) (write : Value → String) (v : Value) :
    (boundWording opening write v).flatMap Wording.missing = [] := by
  unfold boundWording
  split <;> rfl

theorem references_string {fmt : Option String} {least most pattern : Value} {d : Definition}
    (h : string fmt least most pattern = .ok d) : d.references = [] := by
  obtain ⟨parts, hp, h⟩ := except_bind_eq_ok.mp h
  obtain rfl := Except.ok.inj h
  have hparts : parts.flatMap Wording.missing = [] := by
    unfold patternWording at hp
    split at hp
    · split at hp <;> cases hp
      rfl
    · cases hp
      rfl
  rw [Definition.references, missing_join]
  simp [missing_boundWording, hparts]

theorem references_number (integer : Bool) (least most : Value) :
    (number integer least most).references = [] := by
  rw [number, Definition.references, missing_join]
  simp [missing_boundWording]

theorem references_enum (values : List Value) : (enum values).references = [] := by
  unfold enum
  split
  · rfl
  · rw [Definition.references, Code.Call.references_apply]
    exact Code.flatMap_references_of_closed
      (List.forall_mem_map.mpr fun v _ => Code.closed_value v)

theorem references_literal (v : Value) : (literal v).references = [] := by
  unfold literal
  split
  · split <;> rfl
  · rfl

/-! ## Lines -/

theorem closed_propertyKey {required : Bool} {key : Atom} {c : Code}
    (h : propertyKey required key = .ok c) : c.Closed := by
  unfold propertyKey at h
  split at h
  · cases h
    cases required <;> rfl
  · split at h
    · split at h <;> cases h
    · cases h
      rfl

theorem references_propertyLines {inner : String} {key : Atom} {p : Property Schema}
    {d : Definition} {lines : List Code} (h : propertyLines inner key p d = .ok lines) :
    lines.flatMap references = d.references := by
  obtain ⟨doc, hdoc, h⟩ := except_bind_eq_ok.mp h
  obtain ⟨k, hk, h⟩ := except_bind_eq_ok.mp h
  obtain rfl := Except.ok.inj h
  rw [Code.references_commentedLine (Code.closed_comment hdoc)]
  simp only [Code.references_append, Code.references_plain, Code.references_nil, List.nil_append,
    List.append_nil, Definition.references_asValue, references_property]
  rw [show references k = [] from closed_propertyKey hk, List.nil_append]

theorem references_recordKey (d : Definition) :
    references (recordKey d) = [] ∨ references (recordKey d) = d.references := by
  have wording : ∀ w : Wording, references [.quoted (.own "[" :: w ++ [.own "]"])]
      = w.missing.map (·, Code.missingWord) := fun w => by
    simp [Code.references, Code.Piece.references]
  cases d with
  | text w => exact .inr (wording w)
  | literal code => exact .inl rfl
  | expression code => exact .inl rfl

/-! ## Schemas -/

variable {ctx : Context}

/-- The references of a schema are written in order, but for those in keys, which may be left out,
and each reference to a later constant is warned of once. -/
structure Covers (ctx : Context) (outer all : List String) (written : List (String × String))
    (log : List Warning) : Prop where
  least : (outer.map ctx.written).Sublist written
  most : written.Sublist (all.map ctx.written)
  warned : forwards log = (all.filter ctx.isForward).map (·, ctx.current)

namespace Covers

variable {o₁ o₂ a₁ a₂ : List String} {w₁ w₂ : List (String × String)} {l₁ l₂ : List Warning}

theorem nil : Covers ctx [] [] [] [] := ⟨.slnil, .slnil, rfl⟩

theorem append (h₁ : Covers ctx o₁ a₁ w₁ l₁) (h₂ : Covers ctx o₂ a₂ w₂ l₂) :
    Covers ctx (o₁ ++ o₂) (a₁ ++ a₂) (w₁ ++ w₂) (l₁ ++ l₂) := by
  refine ⟨?_, ?_, ?_⟩
  · rw [List.map_append]
    exact h₁.least.append h₂.least
  · rw [List.map_append]
    exact h₁.most.append h₂.most
  · rw [forwards_append, h₁.warned, h₂.warned, List.filter_append, List.map_append]

end Covers

variable (ctx) in
/-- What is known of the definition of a schema. -/
def Writes (s : Schema) : Prop :=
  ∀ depth d, (render ctx depth s).outcome = .ok d →
    Covers ctx s.outerRefs s.refs d.references (render ctx depth s).log

theorem Writes.all {l : List Schema} {depth : Nat} {ds : List Definition}
    (ih : ∀ s ∈ l, Writes ctx s) (h : (l.mapM (render ctx depth)).outcome = .ok ds) :
    Covers ctx (l.flatMap Schema.outerRefs) (l.flatMap Schema.refs)
      (ds.flatMap Definition.references) (l.mapM (render ctx depth)).log := by
  rw [Logged.log_mapM h]
  rw [Logged.outcome_mapM_eq_ok] at h
  induction h with
  | nil => exact .nil
  | cons hs _ ih' =>
    simp only [List.flatMap_cons]
    exact (ih _ List.mem_cons_self _ _ hs).append
      (ih' fun s hm => ih s (List.mem_cons_of_mem _ hm))

theorem Writes.property {entry : Atom × Property Schema} {depth : Nat} {lines : List Code}
    (ih : Writes ctx entry.2.schema) (h : (renderProperty ctx depth entry).outcome = .ok lines) :
    Covers ctx entry.2.schema.outerRefs entry.2.schema.refs (lines.flatMap references)
      (renderProperty ctx depth entry).log := by
  unfold renderProperty at h ⊢
  obtain ⟨d, hd, h⟩ := Logged.outcome_bind_eq_ok.mp h
  rw [Logged.log_bind hd, Logged.log_lift, List.append_nil,
    references_propertyLines (Logged.outcome_lift _ ▸ h)]
  exact ih _ _ hd

theorem Writes.properties {l : List (Atom × Property Schema)} {depth : Nat} {lines : List Code}
    (ih : ∀ entry ∈ l, Writes ctx entry.2.schema)
    (h : (renderProperties ctx depth l).outcome = .ok lines) :
    Covers ctx (l.flatMap fun entry => entry.2.schema.outerRefs)
      (l.flatMap fun entry => entry.2.schema.refs) (lines.flatMap references)
      (renderProperties ctx depth l).log := by
  rw [renderProperties_eq, map_eq_pure_bind] at h ⊢
  obtain ⟨all, hall, hlines⟩ := Logged.outcome_bind_eq_ok.mp h
  obtain rfl := Except.ok.inj hlines
  rw [Logged.log_bind hall, Logged.log_pure, List.append_nil, Logged.log_mapM hall]
  rw [Logged.outcome_mapM_eq_ok] at hall
  clear h hlines
  induction hall with
  | nil => exact .nil
  | cons hp _ ih' =>
    simp only [List.flatMap_cons, List.flatten_cons, List.flatMap_append]
    exact (Writes.property (ih _ List.mem_cons_self) hp).append
      (ih' fun entry hm => ih entry (List.mem_cons_of_mem _ hm))

theorem Writes.extra {e : Extra Schema} {depth : Nat} {lines : List Code}
    (ih : ∀ s, e = .typed s → Writes ctx s) (h : (renderExtra ctx depth e).outcome = .ok lines) :
    Covers ctx (Schema.outerRefsOfExtra e) (Schema.refsOfExtra e) (lines.flatMap references)
      (renderExtra ctx depth e).log := by
  cases e with
  | unset | allowed | rejected =>
    rw [renderExtra] at h ⊢
    cases h
    exact .nil
  | typed s =>
    rw [renderExtra] at h ⊢
    obtain ⟨d, hd, h⟩ := Logged.outcome_bind_eq_ok.mp h
    obtain rfl := Except.ok.inj h
    rw [Logged.log_bind hd, Logged.log_pure, List.append_nil, List.flatMap_singleton]
    simp only [Code.references_append, Code.references_plain, Code.references_nil,
      List.nil_append, List.append_nil, Definition.references_asValue]
    exact ih s rfl _ _ hd

theorem Covers.written {name : String} {log : List Warning}
    (h : forwards log = ([name].filter ctx.isForward).map (·, ctx.current)) :
    Covers ctx [name] [name] [ctx.written name] log :=
  ⟨List.Sublist.refl _, List.Sublist.refl _, h⟩

theorem covers_ref (hl : ctx.library = .arktype) (hc : ∀ name, ctx.customScalar? name = none)
    {name : String} {d : Definition} (h : (ref ctx name).outcome = .ok d) :
    Covers ctx [name] [name] d.references (ref ctx name).log := by
  unfold ref at h ⊢
  rw [hc name] at h ⊢
  dsimp only at h ⊢
  by_cases hf : ctx.isForward name = true
  · rw [if_pos hf] at h ⊢
    obtain rfl := Except.ok.inj h
    have hw : ctx.written name = (name, Code.missingWord) := by
      rw [Context.written, Library.written, if_pos hf, hl]
      rfl
    rw [show Definition.references _ = [ctx.written name] by rw [hw]; rfl]
    refine .written ?_
    rw [List.filter_cons_of_pos hf]
    rfl
  · rw [if_neg hf] at h ⊢
    cases h
    have hw : ctx.written name = (name, Name.schemaVar name) := by
      rw [Context.written, Library.written, if_neg hf]
    rw [show Definition.references _ = [ctx.written name] by rw [hw]; rfl]
    refine .written ?_
    rw [List.filter_cons_of_neg hf]
    rfl

/-- **Every reference outside of the keys of records is written in its place**, nothing else is
written than references of the schema, and one warning arises for each reference to a later
constant. -/
theorem render_references (hl : ctx.library = .arktype)
    (hc : ∀ name, ctx.customScalar? name = none) (s : Schema) : Writes ctx s := by
  induction s using Schema.induction with
  | primitive | raw =>
    intro depth d h
    rw [render] at h ⊢
    cases h
    exact .nil
  | string fmt least most pattern =>
    intro depth d h
    rw [render] at h ⊢
    rw [references_string (Logged.outcome_lift _ ▸ h)]
    exact .nil
  | number integer least most =>
    intro depth d h
    rw [render] at h ⊢
    cases h
    rw [references_number]
    exact .nil
  | object properties extra _ ihp ihe =>
    intro depth d h
    rw [render] at h ⊢
    obtain ⟨lines, hlines, h⟩ := Logged.outcome_bind_eq_ok.mp h
    obtain ⟨more, hmore, h⟩ := Logged.outcome_bind_eq_ok.mp h
    obtain rfl := Except.ok.inj h
    rw [Logged.log_bind hlines, Logged.log_bind hmore, Logged.log_pure, List.append_nil,
      Definition.references, Code.references_braces, List.flatMap_append, Schema.refs_object,
      Schema.outerRefs, Schema.outerRefsOfProperties_eq]
    exact (Writes.properties ihp hlines).append (Writes.extra ihe hmore)
  | array items _ ih =>
    intro depth d h
    rw [render] at h ⊢
    obtain ⟨c, hi, h⟩ := Logged.outcome_bind_eq_ok.mp h
    obtain rfl := Except.ok.inj h
    rw [Logged.log_bind hi, Logged.log_pure, List.append_nil, references_array]
    exact ih depth c hi
  | tuple items _ ih =>
    intro depth d h
    rw [render, renderAll_eq] at h ⊢
    obtain ⟨ds, hi, h⟩ := Logged.outcome_bind_eq_ok.mp h
    obtain rfl := Except.ok.inj h
    rw [Logged.log_bind hi, Logged.log_pure, List.append_nil, Definition.references,
      Code.Call.references_apply, List.flatMap_map, Schema.refs_tuple, Schema.outerRefs,
      Schema.outerRefsOfAll_eq]
    simp only [Definition.references_asValue]
    exact Writes.all ih hi
  | record key value _ ihk ihv =>
    intro depth d h
    rw [render] at h ⊢
    obtain ⟨k, hk, h⟩ := Logged.outcome_bind_eq_ok.mp h
    obtain ⟨v, hv, h⟩ := Logged.outcome_bind_eq_ok.mp h
    obtain rfl := Except.ok.inj h
    rw [Logged.log_bind hk, Logged.log_bind hv, Logged.log_pure, List.append_nil,
      Definition.references, Code.Call.references_apply, List.flatMap_cons, List.flatMap_singleton,
      Definition.references_asValue]
    obtain ⟨hkl, hkm, hkw⟩ := ihk depth k hk
    obtain ⟨hvl, hvm, hvw⟩ := ihv (depth + 1) v hv
    refine ⟨hvl.trans (List.sublist_append_right _ _), ?_, ?_⟩
    · rw [Schema.refs, List.map_append]
      refine List.Sublist.append ?_ hvm
      rcases references_recordKey k with hr | hr
      · rw [hr]
        exact List.nil_sublist _
      · rw [hr]
        exact hkm
    · rw [forwards_append, hkw, hvw, Schema.refs, List.filter_append, List.map_append]
  | enum values =>
    intro depth d h
    rw [render] at h ⊢
    cases h
    rw [references_enum]
    exact .nil
  | literal value =>
    intro depth d h
    rw [render] at h ⊢
    cases h
    rw [references_literal]
    exact .nil
  | union members _ ih | intersection members _ ih =>
    intro depth d h
    rw [render, renderAll_eq] at h ⊢
    obtain ⟨ds, hi, h⟩ := Logged.outcome_bind_eq_ok.mp h
    obtain rfl := Except.ok.inj h
    rw [Logged.log_bind hi, Logged.log_pure, List.append_nil, references_combination, Schema.refs,
      Schema.refsOfAll_eq, Schema.outerRefs, Schema.outerRefsOfAll_eq]
    exact Writes.all ih hi
  | ref name =>
    intro depth d h
    rw [render] at h ⊢
    exact covers_ref hl hc h
  | foreign node =>
    intro depth d h
    rw [render] at h ⊢
    cases h
    exact ⟨.slnil, .slnil, rfl⟩

end Dialect.ArkType

end SchemaForge
