import SchemaForge.Proofs.Code.Words
import SchemaForge.Proofs.Dialect.Steps

/-!
# Brackets of libraries of calls

* `Builder.calls`, `Builder.Lexical`: the words of a library leave their arguments in balance.
* **`lexical_of_library`**: so do those of the three libraries of calls.
* `Builder.Keeps`: a property of code that expressions have because their parts have it;
  **`Keeps.render_ok`**: so every well-typed schema has an expression with this property.
* **`Builder.render_balanced`**: its brackets match.
-/

namespace SchemaForge.Dialect

open Code (Call Balanced scanWords)

namespace Builder

/-- The calls of a library. -/
def calls (b : Builder) : List Call := [
  b.minLength, b.maxLength, b.pattern, b.minimum, b.maximum, b.array, b.tuple, b.record, b.literal,
  b.choice, b.union, b.nullable, b.optional, b.nullish, b.optionalProperty, b.nullishProperty,
  b.object, b.looseObject, b.strictObject, b.typedObject, b.furtherValues, b.deferred]

/-- The words of a library leave their arguments in balance. -/
structure Lexical (b : Builder) : Prop where
  primitive : ∀ kind, scanWords [] (b.primitive kind) = some []
  text : ∀ fmt, scanWords [] (b.text fmt) = some []
  textChecks : ∀ fmt, ∀ w ∈ b.textChecks fmt, scanWords [] w = some []
  number : ∀ integer, scanWords [] (b.number integer) = some []
  numberChecks : ∀ integer, ∀ w ∈ b.numberChecks integer, scanWords [] w = some []
  calls : b.calls.all Call.isBalanced
  constrain : ∀ base checks, Balanced base → (∀ c ∈ checks, Balanced c) →
    Balanced (b.constrain base checks)
  allOf : ∀ codes, (∀ c ∈ codes, Balanced c) → Balanced (b.allOf codes)

/-- The calls of a library that have several arguments. -/
def listCalls (b : Builder) : List Call := [b.tuple, b.record, b.choice, b.union, b.typedObject]

/-- A property of code that the expressions of a library have because their parts have it. -/
structure Keeps (b : Builder) (P : Code → Prop) : Prop where
  balanced : ∀ code, P code → Balanced code
  wordy : ∀ words : String, Code.Wordy words.toList → P [.plain words]
  quoted : ∀ w, P [.quoted w]
  braces : ∀ lines depth, (∀ line ∈ lines, Balanced line) → P (Code.braces lines depth)
  reference : ∀ name words, Code.Wordy words.toList → P [.reference name words]
  deferred : ∀ name words, Code.Wordy words.toList → P [.reference name (b.defer words)]
  primitive : ∀ kind, P [.plain (b.primitive kind)]
  text : ∀ fmt, P [.plain (b.text fmt)]
  textChecks : ∀ fmt, ∀ w ∈ b.textChecks fmt, P [.plain w]
  number : ∀ integer, P [.plain (b.number integer)]
  numberChecks : ∀ integer, ∀ w ∈ b.numberChecks integer, P [.plain w]
  call : ∀ c ∈ b.calls, ∀ code, P code → P (c.apply [code])
  listCall : ∀ c ∈ b.listCalls, ∀ codes, (∀ code ∈ codes, P code) → P (c.apply codes)
  constrain : ∀ base checks, P base → (∀ c ∈ checks, P c) → P (b.constrain base checks)
  allOf : ∀ codes, (∀ c ∈ codes, P c) → P (b.allOf codes)

/-! ## Ways to put schemas together -/

section Put

variable {P : Code → Prop} {base : Code} {checks codes : List Code} {call : Call}

theorem chain_of (happend : ∀ {c d}, P c → P d → P (c ++ d)) (hb : P base)
    (hc : ∀ c ∈ checks, P c) : P (chain base checks) := by
  unfold chain
  induction checks generalizing base with
  | nil => rwa [List.flatten_nil, List.append_nil]
  | cons c checks ih =>
    rw [List.forall_mem_cons] at hc
    rw [List.flatten_cons, ← List.append_assoc]
    exact ih (happend hb hc.1) hc.2

theorem each_of {words : List String} (h : ∀ w ∈ words, P [.plain w]) :
    ∀ c ∈ Code.each words, P c :=
  List.forall_mem_map.mpr h

variable (hcall : ∀ l, (∀ c ∈ l, P c) → P (call.apply l))

include hcall

theorem pipe_of (hb : P base) (hc : ∀ c ∈ checks, P c) : P (pipe call base checks) := by
  unfold pipe
  split
  · exact hb
  · exact hcall _ (List.forall_mem_cons.mpr ⟨hb, hc⟩)

theorem pipeAfter_of (happend : ∀ {c d}, P c → P d → P (c ++ d)) (hb : P base)
    (hc : ∀ c ∈ checks, P c) : P (pipeAfter call base checks) := by
  unfold pipeAfter
  split
  · exact hb
  · exact happend hb (hcall _ hc)

theorem together_of (hc : ∀ c ∈ codes, P c) : P (together call codes) := by
  unfold together
  split
  · exact hc _ (List.mem_singleton.mpr rfl)
  · exact hcall _ hc

theorem nested_of (hnil : P []) (hc : ∀ c ∈ codes, P c) : P (nested call codes) := by
  unfold nested
  cases codes with
  | nil => exact hnil
  | cons first rest =>
    rw [List.forall_mem_cons] at hc
    obtain ⟨hfirst, hrest⟩ := hc
    induction rest generalizing first with
    | nil => exact hfirst
    | cons next rest ih =>
      rw [List.forall_mem_cons] at hrest
      refine ih (call.apply [first, next]) ?_ hrest.2
      exact hcall _ (List.forall_mem_cons.mpr ⟨hfirst, List.forall_mem_singleton.mpr hrest.1⟩)

end Put

/-! ## The libraries -/

theorem zod_lexical : Zod.builder.Lexical where
  primitive kind := by cases kind <;> decide
  text fmt := by
    change scanWords [] (Zod.format fmt) = some []
    unfold Zod.format
    split <;> decide
  textChecks _ := nofun
  number _ := show scanWords [] "z.number()" = some [] by decide
  numberChecks integer := by cases integer <;> decide
  calls := by decide
  constrain _ _ := chain_of Balanced.append
  allOf _ := nested_of (fun _ => Code.balanced_apply (by decide)) Code.balanced_nil

theorem valibot_lexical : Valibot.builder.Lexical where
  primitive kind := by cases kind <;> decide
  text _ := show scanWords [] "v.string()" = some [] by decide
  textChecks fmt := by
    change ∀ w ∈ Valibot.format fmt, _
    unfold Valibot.format
    split <;> decide
  number _ := show scanWords [] "v.number()" = some [] by decide
  numberChecks integer := by cases integer <;> decide
  calls := by decide
  constrain _ _ := pipe_of fun _ => Code.balanced_apply (by decide)
  allOf _ := together_of fun _ => Code.balanced_apply (by decide)

theorem effect_lexical : Effect.builder.Lexical where
  primitive kind := by cases kind <;> decide
  text fmt := by
    change scanWords [] (Effect.format fmt) = some []
    unfold Effect.format
    split <;> decide
  textChecks fmt := by
    change ∀ w ∈ Effect.formatFilters fmt, _
    unfold Effect.formatFilters
    split
    · unfold Effect.formatPattern
      split <;> decide
    · exact nofun
  number integer := by cases integer <;> decide
  numberChecks _ := nofun
  calls := by decide
  constrain _ _ := pipeAfter_of (fun _ => Code.balanced_apply (by decide)) Balanced.append
  allOf _ := nested_of (fun _ => Code.balanced_apply (by decide)) Code.balanced_nil

/-- **The words of every library of calls** leave their arguments in balance. -/
theorem lexical_of_library {lib : Library} {b : Builder} (h : builder? lib = some b) :
    b.Lexical := by
  cases lib <;> cases h
  · exact zod_lexical
  · exact valibot_lexical
  · exact effect_lexical

theorem calls_of_listCalls {b : Builder} {c : Call} (h : c ∈ b.listCalls) : c ∈ b.calls := by
  simp only [listCalls, List.mem_cons, List.not_mem_nil, or_false] at h
  rcases h with rfl | rfl | rfl | rfl | rfl <;> simp [calls]

/-- **Expressions are balanced** because their parts are. -/
theorem Lexical.keeps {b : Builder} (hb : b.Lexical) : b.Keeps Balanced where
  balanced _ h := h
  wordy _ h := Code.balanced_plain.mpr (Code.scanWords_of_wordy h [])
  quoted w := Code.balanced_quoted w
  braces _ depth h := Code.balanced_braces h depth
  reference _ _ h := Code.balanced_reference.mpr (Code.scanWords_of_wordy h [])
  deferred _ _ h := Code.balanced_reference.mpr
    (Code.scanWords_call (List.all_eq_true.mp hb.calls _ (by simp [Builder.calls]))
      (Code.scanWords_of_wordy h))
  primitive kind := Code.balanced_plain.mpr (hb.primitive kind)
  text fmt := Code.balanced_plain.mpr (hb.text fmt)
  textChecks fmt w h := Code.balanced_plain.mpr (hb.textChecks fmt w h)
  number integer := Code.balanced_plain.mpr (hb.number integer)
  numberChecks integer w h := Code.balanced_plain.mpr (hb.numberChecks integer w h)
  call c h _ hc :=
    Code.balanced_apply (List.all_eq_true.mp hb.calls c h) (List.forall_mem_singleton.mpr hc)
  listCall c h _ hc :=
    Code.balanced_apply (List.all_eq_true.mp hb.calls c (calls_of_listCalls h)) hc
  constrain := hb.constrain
  allOf := hb.allOf

/-! ## Expressions -/

namespace Keeps

variable {b : Builder} {P : Code → Prop} (hb : b.Keeps P)

include hb

theorem value {v : Value} (hv : v.isScalar) : P (Code.value v) := by
  rcases Code.value_cases hv with ⟨w, h⟩ | ⟨words, h, hwords⟩
  · rw [h]
    exact hb.quoted w
  · rw [h]
    exact hb.wordy words hwords

theorem bound {c : Call} (h : c ∈ b.calls) {write : Value → String} {v : Value}
    (hw : v.isNumber → Code.Wordy (write v).toList) (hv : v.isNumberOrNull) :
    ∀ code ∈ bound c write v, P code := by
  unfold Dialect.bound
  split
  · exact nofun
  · rename_i hnull
    rw [Value.isNumberOrNull, Bool.or_eq_true] at hv
    exact List.forall_mem_singleton.mpr
      (hb.call c h _ (hb.wordy _ (hw (hv.resolve_left hnull))))

theorem patternCheck_ok {pattern : Value} (h : pattern.isTextOrNull) :
    ∃ checks, b.patternCheck pattern = .ok checks ∧ ∀ c ∈ checks, P c := by
  unfold patternCheck
  split
  · rename_i hgiven
    unfold Value.isTextOrNull at h
    split at h
    · exact ⟨_, rfl, List.forall_mem_singleton.mpr
        (hb.call _ (by simp [Builder.calls]) _ (hb.quoted _))⟩
    · cases hgiven
    · cases h
  · exact ⟨[], rfl, nofun⟩

theorem string_ok {fmt : Option String} {least most pattern : Value} (hl : least.isNumberOrNull)
    (hm : most.isNumberOrNull) (hp : pattern.isTextOrNull) :
    ∃ c, b.string fmt least most pattern = .ok c ∧ P c := by
  obtain ⟨checks, hchecks, hall⟩ := hb.patternCheck_ok hp
  refine ⟨_, by rw [Builder.string, hchecks]; rfl, hb.constrain _ _ (hb.text fmt) ?_⟩
  simp only [List.forall_mem_append]
  exact ⟨⟨⟨each_of (hb.textChecks fmt),
    hb.bound (by simp [Builder.calls]) Code.wordy_display hl⟩,
    hb.bound (by simp [Builder.calls]) Code.wordy_display hm⟩, hall⟩

theorem numeric {integer : Bool} {least most : Value} (hl : least.isNumberOrNull)
    (hm : most.isNumberOrNull) : P (b.numeric integer least most) := by
  refine hb.constrain _ _ (hb.number integer) ?_
  simp only [List.forall_mem_append]
  exact ⟨⟨each_of (hb.numberChecks integer),
    hb.bound (by simp [Builder.calls]) Code.wordy_number hl⟩,
    hb.bound (by simp [Builder.calls]) Code.wordy_number hm⟩

theorem oneOf {codes : List Code} (hc : ∀ c ∈ codes, P c) : P (b.oneOf codes) :=
  together_of (hb.listCall _ (by simp [listCalls])) hc

theorem enum {values : List Value} (hv : ∀ v ∈ values, v.isScalar) : P (b.enum values) := by
  have hvalue : ∀ v ∈ values, P (Code.value v) := fun v h => hb.value (hv v h)
  unfold Builder.enum
  split
  · exact hb.primitive .never
  · split
    · exact hb.listCall _ (by simp [listCalls]) _ (List.forall_mem_map.mpr hvalue)
    · refine hb.oneOf (List.forall_mem_map.mpr fun v h => ?_)
      exact hb.call _ (by simp [Builder.calls]) _ (hvalue v h)

theorem ref {ctx : Context} (hc : ∀ name, ctx.customScalar? name = none) {name : String}
    (hn : Name.isIdentifier name) : P (b.ref ctx name) := by
  unfold Builder.ref
  rw [hc]
  dsimp only
  split
  · exact hb.deferred name _ (Code.wordy_schemaVar hn)
  · exact hb.reference name _ (Code.wordy_schemaVar hn)

theorem absent (hasNull hasUndefined : Bool) {code : Code} (hc : P code) :
    P (b.absent hasNull hasUndefined code) := by
  unfold Builder.absent
  split
  · exact hb.call _ (by simp [Builder.calls]) _ hc
  · split
    · exact hb.call _ (by simp [Builder.calls]) _ hc
    · exact hb.call _ (by simp [Builder.calls]) _ hc

theorem all {codes : List Code} (hc : ∀ c ∈ codes, P c) : P (b.all codes) := by
  unfold Builder.all
  split
  · exact hb.primitive .unknown
  · exact hb.allOf codes hc

theorem property (p : Property Schema) {code : Code} (hc : P code) : P (b.property p code) := by
  unfold Builder.property
  split
  · exact hc
  · split
    · exact hb.call _ (by simp [Builder.calls]) _ hc
    · exact hb.call _ (by simp [Builder.calls]) _ hc

theorem fields_ok {ctx : Context} {depth : Nat} {properties : List (Atom × Property Schema)}
    (hk : ∀ entry ∈ properties, ∃ key, entry.1 = .str key)
    (hd : ∀ entry ∈ properties, entry.2.description.isTextOrNull)
    (hs : ∀ entry ∈ properties, ∃ c,
      (b.render ctx depth entry.2.schema).outcome = .ok c ∧ P c) :
    ∃ fields, (b.renderFields ctx depth properties).outcome = .ok fields ∧
      ∀ f ∈ fields, Balanced f.key ∧ Balanced f.value ∧ f.description.isTextOrNull := by
  rw [renderFields_eq]
  refine Logged.outcome_mapM_forall fun entry hm => ?_
  obtain ⟨key, hkey⟩ := hk entry hm
  obtain ⟨c, hc, hP⟩ := hs entry hm
  refine ⟨⟨Code.key key, b.property entry.2 c, entry.2.description⟩, ?_, Code.balanced_key key,
    hb.balanced _ (hb.property entry.2 hP), hd entry hm⟩
  rw [renderField, Logged.outcome_bind hc, hkey]
  rfl

/-- **Every well-typed schema has an expression**, with each property that its library keeps. -/
theorem render_ok {ctx : Context} (hc : ∀ name, ctx.customScalar? name = none) {s : Schema}
    (hs : s.WellTyped) : ∀ depth, ∃ c, (b.render ctx depth s).outcome = .ok c ∧ P c := by
  induction hs with
  | @primitive kind =>
    exact fun depth => ⟨_, by rw [render]; rfl, hb.primitive kind⟩
  | string hl hm hp =>
    intro depth
    obtain ⟨c, h, hP⟩ := hb.string_ok hl hm hp
    exact ⟨c, by rw [render, Logged.outcome_lift]; exact h, hP⟩
  | number hl hm =>
    exact fun depth => ⟨_, by rw [render]; rfl, hb.numeric hl hm⟩
  | @object properties extra d hk hd hs he _ ihs ihe =>
    intro depth
    obtain ⟨fields, hfields, hall⟩ :=
      hb.fields_ok hk hd fun entry hm => ihs entry hm (depth + 1)
    obtain ⟨lines, hbody, hlines⟩ := Code.object_ok depth (fun f hf => (hall f hf).1)
      (fun f hf => (hall f hf).2.1) fun f hf => (hall f hf).2.2
    have hP := hb.braces lines depth hlines
    rw [render, Logged.outcome_bind hfields, Logged.outcome_lift_bind hbody]
    cases extra with
    | unset => exact ⟨_, by rw [renderExtra]; rfl, hb.call _ (by simp [Builder.calls]) _ hP⟩
    | allowed => exact ⟨_, by rw [renderExtra]; rfl, hb.call _ (by simp [Builder.calls]) _ hP⟩
    | rejected => exact ⟨_, by rw [renderExtra]; rfl, hb.call _ (by simp [Builder.calls]) _ hP⟩
    | typed s =>
      obtain ⟨rest, hrest, hP'⟩ := ihe s rfl depth
      refine ⟨_, by rw [renderExtra, Logged.outcome_bind hrest]; rfl, ?_⟩
      refine hb.listCall _ (by simp [listCalls]) _ (List.forall_mem_cons.mpr ⟨hP, ?_⟩)
      exact List.forall_mem_singleton.mpr (hb.call _ (by simp [Builder.calls]) _ hP')
  | array _ _ ih =>
    intro depth
    obtain ⟨c, h, hP⟩ := ih depth
    exact ⟨_, by rw [render, Logged.outcome_bind h]; rfl,
      hb.call _ (by simp [Builder.calls]) _ hP⟩
  | tuple _ _ ih =>
    intro depth
    obtain ⟨codes, h, hP⟩ := Logged.outcome_mapM_forall fun s hm => ih s hm depth
    exact ⟨_, by rw [render, renderAll_eq, Logged.outcome_bind h]; rfl,
      hb.listCall _ (by simp [listCalls]) _ hP⟩
  | record _ _ _ ihk ihv =>
    intro depth
    obtain ⟨k, hk, hP⟩ := ihk depth
    obtain ⟨v, hv, hP'⟩ := ihv depth
    refine ⟨_, by rw [render, Logged.outcome_bind hk, Logged.outcome_bind hv]; rfl, ?_⟩
    exact hb.listCall _ (by simp [listCalls]) _
      (List.forall_mem_cons.mpr ⟨hP, List.forall_mem_singleton.mpr hP'⟩)
  | enum hv =>
    exact fun depth => ⟨_, by rw [render]; rfl, hb.enum hv⟩
  | literal hv =>
    exact fun depth => ⟨_, by rw [render]; rfl,
      hb.call _ (by simp [Builder.calls]) _ (hb.value hv)⟩
  | @union members d _ _ ih =>
    intro depth
    rw [render]
    split
    · exact ⟨_, rfl, hb.primitive .never⟩
    · split
      · obtain ⟨codes, h, hP⟩ :=
          Logged.outcome_mapM_forall fun s hm => ih s (List.mem_of_mem_filter hm) depth
        exact ⟨_, by rw [renderPresent_eq, Logged.outcome_bind h]; rfl,
          hb.absent _ _ (hb.oneOf hP)⟩
      · obtain ⟨codes, h, hP⟩ := Logged.outcome_mapM_forall fun s hm => ih s hm depth
        exact ⟨_, by rw [renderAll_eq, Logged.outcome_bind h]; rfl, hb.oneOf hP⟩
  | intersection _ _ ih =>
    intro depth
    obtain ⟨codes, h, hP⟩ := Logged.outcome_mapM_forall fun s hm => ih s hm depth
    exact ⟨_, by rw [render, renderAll_eq, Logged.outcome_bind h]; rfl, hb.all hP⟩
  | ref hn =>
    exact fun depth => ⟨_, by rw [render]; rfl, hb.ref hc hn⟩

end Keeps

/-- **Every well-typed schema has an expression**, and its brackets match. -/
theorem render_balanced {b : Builder} {ctx : Context} (hb : b.Lexical)
    (hc : ∀ name, ctx.customScalar? name = none) {s : Schema} (hs : s.WellTyped) (depth : Nat) :
    ∃ c, (b.render ctx depth s).outcome = .ok c ∧ Balanced c :=
  hb.keeps.render_ok hc hs depth

end Builder

end SchemaForge.Dialect
