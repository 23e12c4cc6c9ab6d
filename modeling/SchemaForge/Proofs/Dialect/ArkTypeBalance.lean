import SchemaForge.Proofs.Code.Words
import SchemaForge.Proofs.Dialect.Steps

/-!
# Brackets of ArkType

* `Definition.Sound`: a definition whose code, if it has any, has matching brackets.
* **`ArkType.render_sound`**: every well-typed schema has a definition, and it is sound.
-/

namespace SchemaForge.Dialect.ArkType

open Code (Call Wording Balanced scanWords)

/-! ## Definitions -/

namespace Definition

/-- Whatever stands in a literal is sound; other code must have matching brackets. -/
def Sound : Definition → Prop
  | .text _ => True
  | .literal code => Balanced code
  | .expression code => Balanced code

variable {d : Definition}

theorem sound_text (w : Wording) : Sound (.text w) := True.intro

theorem Sound.asExpression (h : d.Sound) : Balanced d.asExpression := by
  have hopen : scanWords [] "type(" = some [')'] := by decide
  have hclose : scanWords [')'] ")" = some [] := by decide
  cases d with
  | text w => exact Code.balanced_between hopen hclose (Code.balanced_quoted w)
  | literal code => exact Code.balanced_between hopen hclose h
  | expression code => exact h

theorem Sound.asValue (h : d.Sound) : Balanced d.asValue := by
  cases d with
  | text w => exact Code.balanced_quoted w
  | literal code => exact h
  | expression code => exact h

/-- An expression with a method call behind it. -/
theorem Sound.method (h : d.Sound) {words : String} (hw : scanWords [] words = some []) :
    Sound (.expression (d.asExpression ++ words)) :=
  h.asExpression.append (Code.balanced_plain.mpr hw)

theorem Sound.orNull (h : d.Sound) : d.orNull.Sound := by
  have hnull : scanWords [] ".or(\"null\")" = some [] := by decide
  cases d with
  | text w => exact sound_text _
  | literal code => exact Sound.method (d := .literal code) h hnull
  | expression code => exact Sound.method (d := .expression code) h hnull

end Definition

open Definition

theorem sound_array {d : Definition} (h : d.Sound) : (array d).Sound := by
  have harray : scanWords [] ".array()" = some [] := by decide
  cases d with
  | text w => exact sound_text _
  | literal code => exact Sound.method (d := .literal code) h harray
  | expression code => exact Sound.method (d := .expression code) h harray

theorem sound_property (p : Property Schema) {d : Definition} (h : d.Sound) :
    (property p d).Sound := by
  unfold property
  split
  · exact h
  · split
    · exact h
    · exact h.orNull

theorem sound_combination (c : Combination) {ds : List Definition} (h : ∀ d ∈ ds, d.Sound) :
    (c.apply ds).Sound := by
  have hmethod : c.method.isBalanced := by cases c <;> decide
  unfold Combination.apply
  split
  · exact sound_text _
  · exact h _ (List.mem_singleton.mpr rfl)
  · rename_i d rest _
    rw [List.forall_mem_cons] at h
    split
    · exact sound_text _
    · refine Balanced.append h.1.asExpression ?_
      rw [List.flatMap_def]
      refine Code.balanced_flatten (List.forall_mem_map.mpr fun next hn => ?_)
      exact Code.balanced_apply hmethod (List.forall_mem_singleton.mpr (h.2 next hn).asExpression)

/-! ## Schemas without parts -/

theorem string_ok {fmt : Option String} {least most pattern : Value} (hp : pattern.isTextOrNull) :
    ∃ d, string fmt least most pattern = .ok d ∧ d.Sound := by
  obtain ⟨ws, hws⟩ : ∃ ws, patternWording pattern = .ok ws := by
    unfold Value.isTextOrNull at hp
    unfold patternWording
    split
    · split at hp
      · exact ⟨_, rfl⟩
      · rename_i hgiven
        cases hgiven
      · cases hp
    · exact ⟨_, rfl⟩
  exact ⟨_, by rw [string, hws]; rfl, sound_text _⟩

theorem sound_enum {values : List Value} (hv : ∀ v ∈ values, v.isScalar) :
    (enum values).Sound := by
  have hcall : Call.isBalanced { opening := "type.enumerated(" } := by decide
  unfold enum
  split
  · exact sound_text _
  · exact Code.balanced_apply hcall
      (List.forall_mem_map.mpr fun v h => Code.balanced_value (hv v h))

theorem sound_literal (v : Value) : (literal v).Sound := by
  have hcall : Call.isBalanced { opening := "type.unit(" } := by decide
  unfold literal
  split
  · split
    · exact Code.balanced_apply hcall (List.forall_mem_singleton.mpr (Code.balanced_value rfl))
    · exact sound_text _
  · exact sound_text _

theorem ref_ok {ctx : Context} (hc : ∀ name, ctx.customScalar? name = none) {name : String}
    (hn : Name.isIdentifier name) : ∃ d, (ref ctx name).outcome = .ok d ∧ d.Sound := by
  unfold ref
  rw [hc]
  dsimp only
  split
  · exact ⟨_, rfl, sound_text _⟩
  · refine ⟨_, rfl, Code.balanced_reference.mpr ?_⟩
    exact Code.scanWords_of_wordy (Code.wordy_schemaVar hn) []

/-! ## Definitions of schemas -/

section Rendered

variable {ctx : Context}

theorem propertyLines_ok {depth : Nat} {key : String} {p : Property Schema} {d : Definition}
    (hp : p.description.isTextOrNull) (h : d.Sound) : ∃ lines,
    propertyLines (Code.indentation depth) (.str key) p d = .ok lines ∧ ∀ c ∈ lines, Balanced c := by
  obtain ⟨doc, hdoc, hbal⟩ := Code.comment_ok hp (Code.indentation_blank depth)
  refine ⟨_, by rw [propertyLines, hdoc]; rfl, Code.balanced_commentedLine hbal ?_⟩
  have hindent := Code.balanced_plain.mpr (Code.scanWords_indentation [] depth)
  have hcolon : Balanced [.plain ": "] := Code.balanced_plain.mpr (by decide)
  have hcomma : Balanced [.plain ","] := Code.balanced_plain.mpr (by decide)
  exact (((hindent.append (Code.balanced_quoted _)).append hcolon).append
    (sound_property p h).asValue).append hcomma

theorem properties_ok {depth : Nat} {properties : List (Atom × Property Schema)}
    (hk : ∀ entry ∈ properties, ∃ key, entry.1 = .str key)
    (hd : ∀ entry ∈ properties, entry.2.description.isTextOrNull)
    (hs : ∀ entry ∈ properties, ∃ d,
      (render ctx depth entry.2.schema).outcome = .ok d ∧ d.Sound) :
    ∃ lines, (renderProperties ctx depth properties).outcome = .ok lines ∧
      ∀ c ∈ lines, Balanced c := by
  have hlines : ∀ entry ∈ properties, ∃ lines,
      (renderProperty ctx depth entry).outcome = .ok lines ∧ ∀ c ∈ lines, Balanced c := by
    intro entry hm
    obtain ⟨key, hkey⟩ := hk entry hm
    obtain ⟨d, hrender, hsound⟩ := hs entry hm
    obtain ⟨lines, hlines, hbal⟩ : ∃ lines,
        propertyLines (Code.indentation depth) (.str key) entry.2 d = .ok lines ∧
          ∀ c ∈ lines, Balanced c := propertyLines_ok (hd entry hm) hsound
    refine ⟨lines, ?_, hbal⟩
    rw [renderProperty, Logged.outcome_bind hrender, hkey, Logged.outcome_lift]
    exact hlines
  obtain ⟨all, hrender, hall⟩ := Logged.outcome_mapM_forall hlines
  refine ⟨all.flatten, ?_, fun c hc => ?_⟩
  · rw [renderProperties_eq, map_eq_pure_bind, Logged.outcome_bind hrender]
    rfl
  · obtain ⟨lines, hm, hc⟩ := List.mem_flatten.mp hc
    exact hall lines hm c hc

theorem extra_ok {depth : Nat} {extra : Extra Schema}
    (h : ∀ s, extra = .typed s → ∃ d, (render ctx depth s).outcome = .ok d ∧ d.Sound) :
    ∃ lines, (renderExtra ctx depth extra).outcome = .ok lines ∧ ∀ c ∈ lines, Balanced c := by
  have hwords : ∀ words, scanWords [] words = some [] →
      Balanced [.plain (Code.indentation depth ++ words)] := fun words hw =>
    Code.balanced_plain.mpr ((Code.scanWords_append (Code.scanWords_indentation [] depth)).trans hw)
  cases extra with
  | unset | allowed => exact ⟨[], by rw [renderExtra]; rfl, nofun⟩
  | rejected =>
    exact ⟨_, by rw [renderExtra]; rfl,
      List.forall_mem_singleton.mpr (hwords _ (by decide))⟩
  | typed s =>
    obtain ⟨d, hd, hs⟩ := h s rfl
    refine ⟨_, by rw [renderExtra, Logged.outcome_bind hd]; rfl, List.forall_mem_singleton.mpr ?_⟩
    exact ((hwords "\"[string]\": " (by decide)).append hs.asValue).append
      (Code.balanced_plain.mpr (by decide))

/-- **Every well-typed schema has a definition**, and it is sound. -/
theorem render_sound (hc : ∀ name, ctx.customScalar? name = none) {s : Schema}
    (hs : s.WellTyped) : ∀ depth, ∃ d, (render ctx depth s).outcome = .ok d ∧ d.Sound := by
  induction hs with
  | primitive => exact fun depth => ⟨_, by rw [render]; rfl, sound_text _⟩
  | string _ _ hp =>
    intro depth
    obtain ⟨d, h, hsound⟩ := string_ok hp
    exact ⟨d, by rw [render, Logged.outcome_lift]; exact h, hsound⟩
  | number => exact fun depth => ⟨_, by rw [render]; rfl, sound_text _⟩
  | object hk hd _ _ _ ihs ihe =>
    intro depth
    obtain ⟨lines, hlines, hbal⟩ := properties_ok hk hd fun entry hm => ihs entry hm (depth + 1)
    obtain ⟨more, hmore, hbal'⟩ := extra_ok fun s h => ihe s h (depth + 1)
    refine ⟨_, by rw [render, Logged.outcome_bind hlines, Logged.outcome_bind hmore]; rfl, ?_⟩
    exact Code.balanced_braces (List.forall_mem_append.mpr ⟨hbal, hbal'⟩) depth
  | array _ _ ih =>
    intro depth
    obtain ⟨d, h, hsound⟩ := ih depth
    exact ⟨_, by rw [render, Logged.outcome_bind h]; rfl, sound_array hsound⟩
  | tuple _ _ ih =>
    intro depth
    obtain ⟨ds, h, hsound⟩ := Logged.outcome_mapM_forall fun s hm => ih s hm depth
    refine ⟨_, by rw [render, renderAll_eq, Logged.outcome_bind h]; rfl, ?_⟩
    exact Code.balanced_apply (by decide)
      (List.forall_mem_map.mpr fun d hd => (hsound d hd).asValue)
  | record _ _ _ ihk ihv =>
    intro depth
    obtain ⟨k, hk, -⟩ := ihk depth
    obtain ⟨v, hv, hsound⟩ := ihv (depth + 1)
    refine ⟨_, by rw [render, Logged.outcome_bind hk, Logged.outcome_bind hv]; rfl, ?_⟩
    exact Code.balanced_apply (by decide) (List.forall_mem_cons.mpr
      ⟨Code.balanced_quoted _, List.forall_mem_singleton.mpr hsound.asValue⟩)
  | enum hv => exact fun depth => ⟨_, by rw [render]; rfl, sound_enum hv⟩
  | literal => exact fun depth => ⟨_, by rw [render]; rfl, sound_literal _⟩
  | union _ _ ih =>
    intro depth
    obtain ⟨ds, h, hsound⟩ := Logged.outcome_mapM_forall fun s hm => ih s hm depth
    exact ⟨_, by rw [render, renderAll_eq, Logged.outcome_bind h]; rfl, sound_combination .or hsound⟩
  | intersection _ _ ih =>
    intro depth
    obtain ⟨ds, h, hsound⟩ := Logged.outcome_mapM_forall fun s hm => ih s hm depth
    exact ⟨_, by rw [render, renderAll_eq, Logged.outcome_bind h]; rfl, sound_combination .and hsound⟩
  | ref hn =>
    intro depth
    obtain ⟨d, h, hsound⟩ := ref_ok hc hn
    exact ⟨d, by rw [render]; exact h, hsound⟩

end Rendered

end SchemaForge.Dialect.ArkType
