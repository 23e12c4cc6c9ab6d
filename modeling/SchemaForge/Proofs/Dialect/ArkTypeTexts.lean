import SchemaForge.Proofs.Dialect.Texts

/-!
# Other texts in ArkType

The type language of ArkType puts a text in parentheses when it has a blank or a bar in it, and
writes a text with a quote or a backslash as an expression. Texts that agree in these characters
are written alike.

* `Wording.has_mapTexts`: other texts have the same blanks and bars.
* `Definition.mapTexts`: a definition with other texts.
* **`ArkType.render_mapTexts`**: with other texts, a schema has the same definition, with these
  texts in their places.
-/

namespace SchemaForge

variable (r : Replacement)

/-! ## Wordings -/

namespace Code

theorem mem_escapeSlashes {c : Char} (hs : c ≠ '/') (hb : c ≠ '\\') {cs : List Char} :
    c ∈ escapeSlashes cs ↔ c ∈ cs := by
  rw [escapeSlashes, List.mem_flatMap]
  constructor
  · rintro ⟨d, hd, hc⟩
    split at hc
    · simp [hs, hb] at hc
    · rwa [List.mem_singleton.mp hc]
  · intro hc
    refine ⟨c, hc, ?_⟩
    rw [if_neg (by simpa using hs)]
    exact List.mem_singleton.mpr rfl

theorem Stretch.contains_mapTexts {c : Char} (hc : c ∈ [' ', '|']) (s : Stretch) :
    (s.mapTexts r).text.toList.contains c = s.text.toList.contains c := by
  have hmark : c ∈ [' ', '|', '\'', '\\'] := by
    simp only [List.mem_cons, List.not_mem_nil, or_false] at hc ⊢
    tauto
  have htext := fun text => (r.alike text).has c hmark
  cases s with
  | own | missing => rfl
  | taken text => exact htext text
  | key name =>
    change (r.key name).toList.contains c = name.toList.contains c
    unfold Replacement.key
    split
    · rfl
    · exact htext name
  | pattern text =>
    have hc' : c ≠ '/' ∧ c ≠ '\\' := by
      simp only [List.mem_cons, List.not_mem_nil, or_false] at hc
      rcases hc with rfl | rfl <;> decide
    have hslash : ∀ text : String, (Stretch.pattern text).text.toList.contains c =
        text.toList.contains c := fun text => by
      rw [Bool.eq_iff_iff, List.contains_iff_mem, List.contains_iff_mem, Stretch.text,
        String.toList_append, String.toList_append, String.toList_ofList]
      simp [mem_escapeSlashes hc'.1 hc'.2, hc'.1]
    exact ((hslash _).trans (htext text)).trans (hslash text).symm

theorem Wording.has_mapTexts {c : Char} (hc : c ∈ [' ', '|']) (w : Wording) :
    (w.mapTexts r).has c = w.has c := by
  have hany : ∀ w : Wording, w.has c = w.any (·.text.toList.contains c) := fun w => by
    rw [Bool.eq_iff_iff, Wording.has, Wording.text, String.toList_join]
    simp [List.any_eq_true]
  rw [hany, hany, Wording.mapTexts, List.any_map]
  simp only [Function.comp_def, Stretch.contains_mapTexts r hc]

theorem Wording.mapTexts_append (w w' : Wording) :
    Wording.mapTexts r (w ++ w') = w.mapTexts r ++ w'.mapTexts r := List.map_append

theorem Wording.mapTexts_before (w : Wording) (words : String) :
    Wording.mapTexts r (w ++ [.own words]) = w.mapTexts r ++ [.own words] :=
  Wording.mapTexts_append r w [.own words]

theorem Wording.mapTexts_between (w : Wording) (before after : String) :
    Wording.mapTexts r (.own before :: w ++ [.own after]) =
      .own before :: w.mapTexts r ++ [.own after] :=
  congrArg (Stretch.own before :: ·) (Wording.mapTexts_before r w after)

theorem Wording.mapTexts_join (between : String) : ∀ l : List Wording,
    Wording.mapTexts r (Wording.join between l) = Wording.join between (l.map (Wording.mapTexts r))
  | [] => rfl
  | [_] => rfl
  | w :: next :: rest => by
    rw [Wording.join, Wording.mapTexts_append]
    · change w.mapTexts r ++ .own between :: Wording.mapTexts r (join between (next :: rest)) = _
      rw [Wording.mapTexts_join between (next :: rest)]
      rfl
    · simp

end Code

namespace Dialect.ArkType

open Code (Call Wording)

/-! ## Definitions -/

namespace Definition

/-- The definition with other texts. -/
def mapTexts (r : Replacement) : Definition → Definition
  | .text w => .text (w.mapTexts r)
  | .literal code => .literal (Code.mapTexts r code)
  | .expression code => .expression (Code.mapTexts r code)

theorem mapTexts_text (w : Wording) : mapTexts r (.text w) = .text (w.mapTexts r) := rfl

theorem mapTexts_literal (code : Code) :
    mapTexts r (.literal code) = .literal (Code.mapTexts r code) := rfl

theorem mapTexts_expression (code : Code) :
    mapTexts r (.expression code) = .expression (Code.mapTexts r code) := rfl

variable (d : Definition)

theorem asExpression_mapTexts :
    (d.mapTexts r).asExpression = Code.mapTexts r d.asExpression := by
  cases d with
  | text w => rfl
  | literal code =>
    change _ = Code.mapTexts r (_ ++ code ++ _)
    rw [Code.mapTexts_append, Code.mapTexts_append]
    rfl
  | expression code => rfl

theorem asValue_mapTexts : (d.mapTexts r).asValue = Code.mapTexts r d.asValue := by
  cases d <;> rfl

theorem wording?_mapTexts : (d.mapTexts r).wording? = Wording.mapTexts r <$> d.wording? := by
  cases d <;> rfl

/-- An expression with words behind it. -/
theorem method_mapTexts (words : String) :
    Definition.expression ((d.mapTexts r).asExpression ++ words) =
      mapTexts r (.expression (d.asExpression ++ words)) := by
  rw [mapTexts, Code.mapTexts_append, asExpression_mapTexts]
  rfl

theorem orNull_mapTexts : (d.mapTexts r).orNull = d.orNull.mapTexts r := by
  cases d with
  | text w => exact congrArg Definition.text (Wording.mapTexts_before r w _).symm
  | literal code => exact method_mapTexts r (.literal code) _
  | expression code => exact method_mapTexts r (.expression code) _

end Definition

open Definition

theorem group_mapTexts {c : Char} (hc : c ∈ [' ', '|']) (w : Wording) :
    group c (w.mapTexts r) = (group c w).mapTexts r := by
  unfold group
  rw [Wording.has_mapTexts r hc]
  split
  · exact (Wording.mapTexts_between r w _ _).symm
  · rfl

theorem array_mapTexts (d : Definition) : array (d.mapTexts r) = (array d).mapTexts r := by
  cases d with
  | text w =>
    rw [mapTexts_text, array, array, group_mapTexts r (by simp), mapTexts_text,
      Wording.mapTexts_before]
  | literal code => exact method_mapTexts r (.literal code) _
  | expression code => exact method_mapTexts r (.expression code) _

theorem property_mapTexts (p : Property Schema) (d : Definition) :
    property (p.mapTexts r) (d.mapTexts r) = (property p d).mapTexts r := by
  rw [property, property, show (p.mapTexts r).required = p.required from rfl,
    show (p.mapTexts r).absence = p.absence from rfl]
  split
  · rfl
  · cases p.absence with
    | optional => rfl
    | nullish => exact d.orNull_mapTexts r

theorem operand_mapTexts (c : Combination) (w : Wording) :
    c.operand (w.mapTexts r) = (c.operand w).mapTexts r := by
  cases c with
  | or => rfl
  | and => exact group_mapTexts r (by simp) w

theorem combination_mapTexts (c : Combination) (ds : List Definition) :
    c.apply (ds.map (Definition.mapTexts r)) = (c.apply ds).mapTexts r := by
  rcases ds with _ | ⟨d, _ | ⟨next, rest⟩⟩
  · rfl
  · rfl
  · have hwordings : (((d :: next :: rest).map (Definition.mapTexts r)).mapM wording?) =
        List.map (Wording.mapTexts r) <$> (d :: next :: rest).mapM wording? :=
      mapM_map_of_forall fun d _ => d.wording?_mapTexts r
    have hmethod : ∀ d : Definition, c.method.apply [(d.mapTexts r).asExpression] =
        Code.mapTexts r (c.method.apply [d.asExpression]) := fun d => by
      rw [Code.mapTexts_apply, List.map_singleton, asExpression_mapTexts]
    simp only [List.map_cons] at hwordings ⊢
    simp only [Combination.apply, hwordings]
    cases (d :: next :: rest).mapM wording? with
    | none =>
      refine congrArg Definition.expression ?_
      rw [Code.mapTexts_append, asExpression_mapTexts, ← List.map_cons, List.flatMap_map]
      simp only [hmethod]
      rw [Code.mapTexts, Code.mapTexts, List.map_flatMap]
      rfl
    | some ws =>
      refine congrArg Definition.text ?_
      rw [Wording.mapTexts_join, List.map_map, List.map_map]
      simp only [Function.comp_def, operand_mapTexts]

/-! ## Schemas without parts -/

theorem boundWording_mapTexts (opening : String) (write : Value → String) (v : Value) :
    (boundWording opening write v).map (Wording.mapTexts r) = boundWording opening write v := by
  unfold boundWording
  split <;> rfl

theorem patternWording_mapTexts (pattern : Value) : patternWording (r.value pattern) =
    List.map (Wording.mapTexts r) <$> patternWording pattern := by
  unfold patternWording
  rw [r.isGiven_value]
  split
  · rcases r.value_cases pattern with ⟨s, rfl, h⟩ | ⟨hne, h⟩
    · rfl
    · rw [h]
      split
      · exact absurd rfl (hne _)
      all_goals rfl
  · rfl

theorem string_mapTexts (fmt : Option String) (least most pattern : Value) :
    string fmt least most (r.value pattern) =
      Definition.mapTexts r <$> string fmt least most pattern := by
  unfold string
  rw [patternWording_mapTexts]
  simp only [map_eq_pure_bind, bind_assoc, pure_bind, mapTexts_text, Wording.mapTexts_join,
    List.map_append, List.map_cons, boundWording_mapTexts]
  rfl

theorem number_mapTexts (integer : Bool) (least most : Value) :
    (number integer least most).mapTexts r = number integer least most := by
  unfold number
  rw [mapTexts_text, Wording.mapTexts_join, List.map_append, List.map_cons,
    boundWording_mapTexts, boundWording_mapTexts]
  rfl

theorem enum_mapTexts (values : List Value) :
    enum (values.map r.value) = (enum values).mapTexts r := by
  unfold enum
  rw [List.isEmpty_map]
  split
  · rfl
  · rw [mapTexts_expression, Code.mapTexts_apply, List.map_map, List.map_map]
    simp only [Function.comp_def, Code.value_mapTexts]

theorem literal_mapTexts (v : Value) : literal (r.value v) = (literal v).mapTexts r := by
  rcases r.value_cases v with ⟨s, rfl, h⟩ | ⟨hne, h⟩
  · rw [h]
    unfold literal
    dsimp only
    rw [(r.alike s).has '\'' (by simp), (r.alike s).has '\\' (by simp)]
    split <;> rfl
  · rw [h]
    unfold literal
    split
    · exact absurd rfl (hne _)
    · rfl

theorem ref_mapTexts (ctx : Context) (name : String) :
    Definition.mapTexts r <$> ref ctx name = ref ctx name := by
  unfold ref
  split
  · rfl
  · split
    · simp only [map_eq_pure_bind, bind_assoc, pure_bind]
      rfl
    · rfl

/-! ## Lines -/

theorem propertyKey_mapTexts (required : Bool) (key : Atom) :
    propertyKey required (r.atom key) = Code.mapTexts r <$> propertyKey required key := by
  cases key with
  | str s => cases required <;> rfl
  | _ => cases required <;> rfl

theorem propertyLines_mapTexts (inner : String) (key : Atom) (p : Property Schema)
    (d : Definition) : propertyLines inner (r.atom key) (p.mapTexts r) (d.mapTexts r) =
      List.map (Code.mapTexts r) <$> propertyLines inner key p d := by
  unfold propertyLines
  rw [show (p.mapTexts r).description = r.value p.description from rfl,
    show (p.mapTexts r).required = p.required from rfl, Code.comment_mapTexts,
    propertyKey_mapTexts, property_mapTexts]
  simp only [map_eq_pure_bind, bind_assoc, pure_bind, asValue_mapTexts]
  refine bind_congr fun doc => bind_congr fun key => congrArg pure ?_
  rw [← Code.commentedLine_mapTexts]
  simp only [Code.mapTexts_append, Code.mapTexts_plain, Code.mapTexts_nil]

theorem recordKey_mapTexts (d : Definition) :
    recordKey (d.mapTexts r) = Code.mapTexts r (recordKey d) := by
  cases d with
  | text w =>
    exact congrArg (fun w => [Code.Piece.quoted w]) (Wording.mapTexts_between r w _ _).symm
  | literal code => rfl
  | expression code => rfl

/-! ## Definitions of schemas -/

variable {r} {ctx : Context}

variable (ctx r) in
/-- With other texts, the schema has the same definition, with these texts in their places. -/
def Follows (s : Schema) : Prop :=
  ∀ depth, render ctx depth (s.mapTexts r) = Definition.mapTexts r <$> render ctx depth s

theorem Follows.all {l : List Schema} (h : ∀ s ∈ l, Follows r ctx s) (depth : Nat) :
    renderAll ctx depth (Schema.mapTextsOfAll r l) =
      List.map (Definition.mapTexts r) <$> renderAll ctx depth l := by
  rw [renderAll_eq, renderAll_eq, Schema.mapTextsOfAll_eq]
  exact mapM_map_of_forall fun s hs => h s hs depth

theorem Follows.property {entry : Atom × Property Schema} (h : Follows r ctx entry.2.schema)
    (depth : Nat) : renderProperty ctx depth (Prod.map r.atom (Property.mapTexts r) entry) =
      List.map (Code.mapTexts r) <$> renderProperty ctx depth entry := by
  unfold renderProperty
  simp only [Prod.map_fst, Prod.map_snd]
  rw [show (Property.mapTexts r entry.2).schema = entry.2.schema.mapTexts r from rfl, h depth]
  simp only [map_eq_pure_bind, bind_assoc, pure_bind]
  refine bind_congr fun d => ?_
  rw [propertyLines_mapTexts, Logged.lift_map, map_eq_pure_bind]

theorem Follows.properties {properties : List (Atom × Property Schema)}
    (h : ∀ entry ∈ properties, Follows r ctx entry.2.schema) (depth : Nat) :
    renderProperties ctx depth (Schema.mapTextsOfProperties r properties) =
      List.map (Code.mapTexts r) <$> renderProperties ctx depth properties := by
  rw [renderProperties_eq, renderProperties_eq, Schema.mapTextsOfProperties_eq,
    mapM_map_of_forall fun entry he => (h entry he).property depth]
  simp only [map_eq_pure_bind, bind_assoc, pure_bind, List.map_flatten]

theorem Follows.extra {extra : Extra Schema} (h : ∀ s, extra = .typed s → Follows r ctx s)
    (depth : Nat) : renderExtra ctx depth (Schema.mapTextsOfExtra r extra) =
      List.map (Code.mapTexts r) <$> renderExtra ctx depth extra := by
  cases extra with
  | unset | allowed | rejected =>
    rw [Schema.mapTextsOfExtra, renderExtra]
    rfl
  | typed s =>
    rw [Schema.mapTextsOfExtra, renderExtra, renderExtra, h s rfl depth]
    simp only [map_eq_pure_bind, bind_assoc, pure_bind, asValue_mapTexts, List.map_cons,
      List.map_nil, Code.mapTexts_append, Code.mapTexts_plain, Code.mapTexts_nil]

/-- **With other texts, a schema has the same definition**, with these texts in their places. -/
theorem render_mapTexts (s : Schema) : Follows r ctx s := by
  induction s using Schema.induction with
  | primitive | raw =>
    intro depth
    rw [Schema.mapTexts, render, render]
    rfl
  | string fmt least most pattern =>
    intro depth
    rw [Schema.mapTexts, render, render, string_mapTexts, Logged.lift_map]
  | number integer least most =>
    intro depth
    rw [Schema.mapTexts, render, render, map_pure, number_mapTexts]
  | object properties extra _ ihp ihe =>
    intro depth
    rw [Schema.mapTexts, render, render, Follows.properties ihp, Follows.extra ihe]
    simp only [map_eq_pure_bind, bind_assoc, pure_bind, mapTexts_literal, Code.mapTexts_braces,
      List.map_append]
  | array items _ ih =>
    intro depth
    rw [Schema.mapTexts, render, render, ih]
    simp only [map_eq_pure_bind, bind_assoc, pure_bind, array_mapTexts]
  | tuple items _ ih =>
    intro depth
    rw [Schema.mapTexts, render, render, Follows.all ih]
    simp only [map_eq_pure_bind, bind_assoc, pure_bind, mapTexts_literal, Code.mapTexts_apply,
      List.map_map, Function.comp_def, asValue_mapTexts]
  | record key value _ ihk ihv =>
    intro depth
    rw [Schema.mapTexts, render, render, ihk, ihv]
    simp only [map_eq_pure_bind, bind_assoc, pure_bind, mapTexts_literal, Code.mapTexts_apply,
      List.map_cons, List.map_nil, recordKey_mapTexts, asValue_mapTexts]
  | enum values =>
    intro depth
    rw [Schema.mapTexts, render, render, map_pure, enum_mapTexts]
  | literal value =>
    intro depth
    rw [Schema.mapTexts, render, render, map_pure, literal_mapTexts]
  | union members _ ih =>
    intro depth
    rw [Schema.mapTexts, render, render, Follows.all ih]
    simp only [map_eq_pure_bind, bind_assoc, pure_bind, combination_mapTexts]
  | intersection members _ ih =>
    intro depth
    rw [Schema.mapTexts, render, render, Follows.all ih]
    simp only [map_eq_pure_bind, bind_assoc, pure_bind, combination_mapTexts]
  | ref name =>
    intro depth
    rw [Schema.mapTexts, render, render, ref_mapTexts]
  | foreign node =>
    intro depth
    rw [Schema.mapTexts, render, render]
    rfl

end Dialect.ArkType

end SchemaForge
