import SchemaForge.Proofs.Code.PropertyNames
import SchemaForge.Proofs.Dialect.Balance

/-!
# Names of the properties of an object

The libraries of calls write an object as an object literal in a call. Its keys denote the names of
the properties, but for a name that is an identifier with a line feed behind it: such a name is left
unquoted, and its key denotes the identifier alone.

* `Builder.Seals`: no comma stands in an expression of a library outside brackets of its own;
  **`seals_of_library`**, `Seals.keeps`: this holds of the three libraries and of all well-typed
  schemas.
* `Builder.Parted`: properties whose values end where their expressions do.
* **`Builder.object_names_iff`**: the names that the keys of an object denote.
-/

namespace SchemaForge.Dialect.Builder

open Code (Call Balanced Clear Sealed denoted endsProperty propertyNames)
open Code.Scanner (top clearScan)

/-! ## Expressions without a comma of their own -/

/-- Whether words hold neither a comma nor a closing brace outside brackets of their own, and leave
none open. -/
def isSealed (words : String) : Bool := clearScan endsProperty top words.toList == some top

/-- The calls that hold the object literal of an object. -/
def objectCalls (b : Builder) : List Call :=
  [b.object, b.looseObject, b.strictObject, b.typedObject]

/-- The words of a library end no property: no comma stands in an expression outside brackets of its
own, and no brace before the object literal of an object. -/
structure Seals (b : Builder) : Prop where
  primitive : ∀ kind, isSealed (b.primitive kind)
  text : ∀ fmt, isSealed (b.text fmt)
  textChecks : ∀ fmt, ∀ w ∈ b.textChecks fmt, isSealed w
  number : ∀ integer, isSealed (b.number integer)
  numberChecks : ∀ integer, ∀ w ∈ b.numberChecks integer, isSealed w
  calls : b.calls.all (Call.wraps endsProperty)
  listCalls : b.listCalls.all (Call.separates endsProperty)
  objectCalls : b.objectCalls.all fun c => c.opening.toList.all (· != '\x7b')
  constrain : ∀ base checks, Sealed endsProperty base → (∀ c ∈ checks, Sealed endsProperty c) →
    Sealed endsProperty (b.constrain base checks)
  allOf : ∀ codes, (∀ c ∈ codes, Sealed endsProperty c) → Sealed endsProperty (b.allOf codes)

theorem sealed_nil : Sealed endsProperty [] := ⟨Code.balanced_nil, Code.clear_nil⟩

theorem sealed_apply {call : Call} (hb : call.isBalanced) (hw : call.wraps endsProperty)
    (hs : call.separates endsProperty) (l : List Code) (h : ∀ c ∈ l, Sealed endsProperty c) :
    Sealed endsProperty (call.apply l) :=
  ⟨Code.balanced_apply hb fun c hc => (h c hc).balanced, Code.clear_apply hw hs h⟩

theorem zod_seals : Zod.builder.Seals where
  primitive kind := by cases kind <;> decide
  text fmt := by
    change isSealed (Zod.format fmt)
    unfold Zod.format
    split <;> decide
  textChecks _ := nofun
  number _ := show isSealed "z.number()" by decide
  numberChecks integer := by cases integer <;> decide
  calls := by decide
  listCalls := by decide
  objectCalls := by decide
  constrain _ _ := chain_of Sealed.append
  allOf _ := nested_of (sealed_apply (by decide) (by decide) (by decide)) sealed_nil

theorem valibot_seals : Valibot.builder.Seals where
  primitive kind := by cases kind <;> decide
  text _ := show isSealed "v.string()" by decide
  textChecks fmt := by
    change ∀ w ∈ Valibot.format fmt, _
    unfold Valibot.format
    split <;> decide
  number _ := show isSealed "v.number()" by decide
  numberChecks integer := by cases integer <;> decide
  calls := by decide
  listCalls := by decide
  objectCalls := by decide
  constrain _ _ := pipe_of (sealed_apply (by decide) (by decide) (by decide))
  allOf _ := together_of (sealed_apply (by decide) (by decide) (by decide))

theorem effect_seals : Effect.builder.Seals where
  primitive kind := by cases kind <;> decide
  text fmt := by
    change isSealed (Effect.format fmt)
    unfold Effect.format
    split <;> decide
  textChecks fmt := by
    change ∀ w ∈ Effect.formatFilters fmt, _
    unfold Effect.formatFilters
    split
    · unfold Effect.formatPattern
      split <;> decide
    · exact nofun
  number integer := by cases integer <;> decide
  numberChecks _ := nofun
  calls := by decide
  listCalls := by decide
  objectCalls := by decide
  constrain _ _ :=
    pipeAfter_of (sealed_apply (by decide) (by decide) (by decide)) Sealed.append
  allOf _ := nested_of (sealed_apply (by decide) (by decide) (by decide)) sealed_nil

/-- **The words of every library of calls** end no property. -/
theorem seals_of_library {lib : Library} {b : Builder} (h : builder? lib = some b) : b.Seals := by
  cases lib <;> cases h
  · exact zod_seals
  · exact valibot_seals
  · exact effect_seals

theorem clear_wordy {words : String} (h : Code.Wordy words.toList) :
    Clear endsProperty [.plain words] := by
  refine Code.clear_plain (Code.Scanner.clearScan_of_not_mark
    (fun c hc => Code.isMark_of_isWordChar (h c hc)) fun c hc => ?_)
  rw [endsProperty, Bool.or_eq_false_iff, beq_eq_false_iff_ne, beq_eq_false_iff_ne]
  constructor
  all_goals
    rintro rfl
    exact absurd (h _ hc) (by decide)

section Kept

variable {b : Builder} (hb : b.Seals)

include hb

theorem Seals.wraps {c : Call} (h : c ∈ b.calls) : c.wraps endsProperty :=
  List.all_eq_true.mp hb.calls c h

theorem Seals.opening {c : Call} (h : c ∈ b.objectCalls) : ∀ d ∈ c.opening.toList, d ≠ '\x7b' :=
  fun d hd => by
    have := List.all_eq_true.mp hb.objectCalls c h
    exact bne_iff_ne.mp (List.all_eq_true.mp this d hd)

/-- **Expressions end no property** because their parts do not. -/
theorem Seals.keeps (hl : b.Lexical) : b.Keeps (Sealed endsProperty) where
  balanced _ h := h.balanced
  wordy words h := ⟨hl.keeps.wordy words h, clear_wordy h⟩
  quoted w := ⟨hl.keeps.quoted w, Code.clear_quoted rfl w⟩
  braces lines depth h := ⟨hl.keeps.braces lines depth h, Code.clear_braces rfl h depth⟩
  reference name words h :=
    ⟨hl.keeps.reference name words h, (clear_wordy h).of_text rfl⟩
  deferred name words h := by
    have hword : Sealed endsProperty [.plain words] := ⟨hl.keeps.wordy words h, clear_wordy h⟩
    have hcall : b.deferred ∈ b.calls := by simp [Builder.calls]
    have hclear := Code.clear_apply_one (hb.wraps hcall) hword
    refine ⟨hl.keeps.deferred name words h, hclear.of_text ?_⟩
    simp [Call.apply, Code.join, Code.text, Code.Piece.text, defer, String.append_assoc]
  primitive kind := ⟨hl.keeps.primitive kind, Code.clear_plain (beq_iff_eq.mp (hb.primitive kind))⟩
  text fmt := ⟨hl.keeps.text fmt, Code.clear_plain (beq_iff_eq.mp (hb.text fmt))⟩
  textChecks fmt w h :=
    ⟨hl.keeps.textChecks fmt w h, Code.clear_plain (beq_iff_eq.mp (hb.textChecks fmt w h))⟩
  number integer := ⟨hl.keeps.number integer, Code.clear_plain (beq_iff_eq.mp (hb.number integer))⟩
  numberChecks integer w h :=
    ⟨hl.keeps.numberChecks integer w h,
      Code.clear_plain (beq_iff_eq.mp (hb.numberChecks integer w h))⟩
  call c h code hc := ⟨hl.keeps.call c h code hc.balanced, Code.clear_apply_one (hb.wraps h) hc⟩
  listCall c h codes hc :=
    ⟨hl.keeps.listCall c h codes fun code hm => (hc code hm).balanced,
      Code.clear_apply (hb.wraps (calls_of_listCalls h)) (List.all_eq_true.mp hb.listCalls c h) hc⟩
  constrain := hb.constrain
  allOf := hb.allOf

end Kept

/-! ## Objects -/

variable {b : Builder} {ctx : Context}

/-- A property whose value has an expression and ends where that does. -/
def Parted (b : Builder) (ctx : Context) (depth : Nat) (p : Property Schema) : Prop :=
  ∃ c, (b.render ctx depth p.schema).outcome = .ok c ∧ Clear endsProperty (b.property p c)

/-- **Properties of well-typed schemas** are such. -/
theorem parted_of_wellTyped (hb : builder? ctx.library = some b)
    (hc : ∀ name, ctx.customScalar? name = none) {p : Property Schema} (hs : p.schema.WellTyped)
    (depth : Nat) : b.Parted ctx depth p := by
  have hkeeps := (seals_of_library hb).keeps (lexical_of_library hb)
  obtain ⟨c, hrender, hsealed⟩ := hkeeps.render_ok hc hs depth
  exact ⟨c, hrender, (hkeeps.property p hsealed).clear⟩

theorem renderFields_named {depth : Nat} {properties : List (String × Property Schema)}
    (hd : ∀ entry ∈ properties, entry.2.description.isTextOrNull)
    (hs : ∀ entry ∈ properties, b.Parted ctx depth entry.2) :
    ∃ fields, (b.renderFields ctx depth (properties.map (Prod.map .str id))).outcome = .ok fields ∧
      List.Forall₂ Code.Field.Named (properties.map Prod.fst) fields := by
  induction properties with
  | nil => exact ⟨[], by rw [List.map_nil, renderFields]; rfl, .nil⟩
  | cons entry properties ih =>
    obtain ⟨name, p⟩ := entry
    rw [List.forall_mem_cons] at hd hs
    obtain ⟨c, hrender, hclear⟩ := hs.1
    obtain ⟨fields, hfields, hnamed⟩ := ih hd.2 hs.2
    refine ⟨⟨Code.key name, b.property p c, p.description⟩ :: fields, ?_,
      .cons ⟨rfl, hclear, hd.1⟩ hnamed⟩
    rw [List.map_cons, Prod.map_apply, id_eq, renderFields, Logged.outcome_bind hrender, fieldKey,
      Logged.outcome_lift_bind rfl, Logged.outcome_bind hfields, Logged.outcome_pure]

/-- The expression of an object is the object literal of its properties, in a call. -/
theorem render_object {depth : Nat} {properties : List (Atom × Property Schema)}
    {extra : Extra Schema} (d : Value) {fields : List Code.Field} {body : Code}
    (hf : (b.renderFields ctx (depth + 1) properties).outcome = .ok fields)
    (hb : Code.object fields depth = .ok body)
    (he : ∀ s, extra = .typed s → ∃ c, (b.render ctx depth s).outcome = .ok c) :
    ∃ call ∈ b.objectCalls, ∃ more, (b.render ctx depth (.object properties extra d)).outcome =
      .ok (call.apply (body :: more)) := by
  rw [render, Logged.outcome_bind hf, Logged.outcome_lift_bind hb]
  cases extra with
  | unset => exact ⟨b.object, by simp [objectCalls], [], by rw [renderExtra]; rfl⟩
  | allowed => exact ⟨b.looseObject, by simp [objectCalls], [], by rw [renderExtra]; rfl⟩
  | rejected => exact ⟨b.strictObject, by simp [objectCalls], [], by rw [renderExtra]; rfl⟩
  | typed s =>
    obtain ⟨c, hc⟩ := he s rfl
    exact ⟨b.typedObject, by simp [objectCalls], [_],
      by rw [renderExtra, Logged.outcome_bind hc]; rfl⟩

theorem text_apply_cons (call : Call) (code : Code) (more : List Code) : ∃ behind,
    Code.text (call.apply (code :: more)) = call.opening ++ Code.text code ++ behind := by
  obtain ⟨rest, hrest⟩ : ∃ rest, Code.join call.between (code :: more) = code ++ rest := by
    cases more with
    | nil => exact ⟨[], (List.append_nil code).symm⟩
    | cons next more => exact ⟨_, Code.join_cons_cons call.between code next more⟩
  refine ⟨Code.text (rest ++ [.plain call.closing]), ?_⟩
  rw [Call.apply, hrest, List.cons_append, Code.text_cons, Code.Piece.text, List.append_assoc,
    Code.text_append, String.append_assoc]

/-- **The expression of an object** whose parts have one, and the names in it. -/
theorem render_object_names (hb : builder? ctx.library = some b) (depth : Nat)
    {properties : List (String × Property Schema)} {extra : Extra Schema} (d : Value)
    (hd : ∀ entry ∈ properties, entry.2.description.isTextOrNull)
    (hs : ∀ entry ∈ properties, b.Parted ctx (depth + 1) entry.2)
    (he : ∀ s, extra = .typed s → ∃ c, (b.render ctx depth s).outcome = .ok c) :
    ∃ code, (b.render ctx depth (.object (properties.map (Prod.map .str id)) extra d)).outcome =
        .ok code ∧
      propertyNames (Code.text code) = properties.map (denoted ·.1) := by
  obtain ⟨fields, hfields, hnamed⟩ := renderFields_named hd hs
  obtain ⟨body, hbody, hnames⟩ := Code.propertyNames_object hnamed depth
  obtain ⟨call, hcall, more, hrender⟩ := render_object d hfields hbody he
  obtain ⟨behind, htext⟩ := text_apply_cons call body more
  refine ⟨_, hrender, ?_⟩
  rw [htext, hnames _ behind ((seals_of_library hb).opening hcall), List.map_map]
  rfl

/-- **Main statement.** The values of an object having expressions that end where their code does,
the object has an expression, whose object literal has a key for each property, in order. The keys
denote the names of the properties exactly when none of these is an identifier with a line feed
behind it: such a name is left unquoted, and its key denotes the identifier alone. So they denote
distinct names exactly when no identifier is a name together with itself and a line feed behind. -/
theorem object_names_iff (hb : builder? ctx.library = some b) (depth : Nat)
    {properties : List (String × Property Schema)} {extra : Extra Schema} (d : Value)
    (hn : (properties.map Prod.fst).Nodup)
    (hd : ∀ entry ∈ properties, entry.2.description.isTextOrNull)
    (hs : ∀ entry ∈ properties, b.Parted ctx (depth + 1) entry.2)
    (he : ∀ s, extra = .typed s → ∃ c, (b.render ctx depth s).outcome = .ok c) :
    (∃ code, (b.render ctx depth (.object (properties.map (Prod.map .str id)) extra d)).outcome =
        .ok code ∧
      propertyNames (Code.text code) = properties.map (denoted ·.1) ∧
      (propertyNames (Code.text code) = properties.map Prod.fst ↔
        ∀ entry ∈ properties, ¬ Name.EndsLine entry.1) ∧
      ((propertyNames (Code.text code)).Nodup ↔
        ∀ word ∈ properties.map Prod.fst, Name.isWord word →
          word ++ "\n" ∉ properties.map Prod.fst)) ∧
    ∀ name, Code.propertyKey name = name ↔ Name.isWord name ∨ Name.EndsLine name := by
  obtain ⟨code, hcode, hnames⟩ := render_object_names hb depth d hd hs he
  refine ⟨⟨code, hcode, hnames, ?_, ?_⟩, fun name => ?_⟩
  · rw [hnames, List.map_inj_left]
    exact forall₂_congr fun entry _ => Code.denoted_eq_iff
  · rw [hnames, ← Code.nodup_denoted_iff hn, List.map_map]
    rfl
  · rw [Code.propertyKey_eq_iff, Name.isIdentifier_iff]

/-- Properties whose names need quotes, but for the first and the last one. -/
def labelled : List (String × Property Schema) :=
  [("$ref", { schema := .ref "User" .null, description := .str "A link, see a: \x7d\n*/ b" }),
    ("1st", { schema := .anyNumber true, required := false }),
    ("a \"b\"\\\n", { schema := .array (.text none) .null, description := .str " " }),
    ("", { schema := .null }),
    ("a-b\n", { schema := .boolean, required := false, absence := .optional }),
    ("a", { schema := .raw "custom(\x7b b: 1, c: \",\" \x7d)" .null })]

theorem labelled_names : builder? (default : Context).library = some Zod.builder ∧
    (labelled.map Prod.fst).Nodup ∧
    (∀ entry ∈ labelled, ¬ Name.EndsLine entry.1) ∧
    ∃ code, (Zod.builder.render default 0 (.object (labelled.map (Prod.map .str id))
        (.typed .boolean) .null)).outcome = .ok code ∧
      propertyNames (Code.text code) = ["$ref", "1st", "a \"b\"\\\n", "", "a-b\n", "a"] ∧
      (propertyNames (Code.text code)).Nodup := by
  have hb : builder? (default : Context).library = some Zod.builder := rfl
  have hn : (labelled.map Prod.fst).Nodup := by decide
  have hends : ∀ entry ∈ labelled, ¬ Name.EndsLine entry.1 := by decide
  have hc := @customScalar?_eq_none default rfl
  have hs : ∀ entry ∈ labelled, Zod.builder.Parted default 1 entry.2 := by
    simp only [labelled, List.forall_mem_cons, List.not_mem_nil, false_imp_iff, implies_true,
      and_true]
    refine ⟨parted_of_wellTyped hb hc (.ref (by decide) rfl) 1,
      parted_of_wellTyped hb hc (.number rfl rfl rfl) 1,
      parted_of_wellTyped hb hc (.array (.string rfl rfl rfl rfl) rfl) 1,
      parted_of_wellTyped hb hc (.primitive rfl) 1,
      parted_of_wellTyped hb hc (.primitive rfl) 1, ?_⟩
    -- the raw code has commas and a colon, but in brackets of its own
    exact ⟨_, by rw [render]; rfl, Code.clear_plain rfl⟩
  have he : ∀ s, Extra.typed Schema.boolean = .typed s →
      ∃ c, (Zod.builder.render default 0 s).outcome = .ok c := by
    rintro _ ⟨⟩
    exact ⟨_, by rw [Schema.boolean, render]; rfl⟩
  obtain ⟨⟨code, hcode, -, hsame, -⟩, -⟩ :=
    object_names_iff hb 0 .null hn (by decide) hs he
  have hnames := hsame.mpr hends
  exact ⟨hb, hn, hends, code, hcode, hnames, hnames ▸ hn⟩

/-- An identifier, and the same one with a line feed behind it. -/
def doubled : List (String × Property Schema) :=
  [("a", { schema := .text none }), ("a\n", { schema := .boolean })]

/-- The second one is left unquoted too, so both keys denote the first one. -/
theorem doubled_same_name : (doubled.map Prod.fst).Nodup ∧
    Code.propertyKey "a\n" = "a\n" ∧ Name.isWord "a\n" = false ∧
    ∃ code, (Zod.builder.render default 0 (.object (doubled.map (Prod.map .str id))
        .unset .null)).outcome = .ok code ∧
      propertyNames (Code.text code) = ["a", "a"] ∧
      propertyNames (Code.text code) ≠ doubled.map Prod.fst := by
  have hb : builder? (default : Context).library = some Zod.builder := rfl
  have hc := @customScalar?_eq_none default rfl
  have hs : ∀ entry ∈ doubled, Zod.builder.Parted default 1 entry.2 := by
    simp only [doubled, List.forall_mem_cons, List.not_mem_nil, false_imp_iff, implies_true,
      and_true]
    exact ⟨parted_of_wellTyped hb hc (.string rfl rfl rfl rfl) 1,
      parted_of_wellTyped hb hc (.primitive rfl) 1⟩
  obtain ⟨code, hcode, hnames⟩ :=
    @render_object_names _ default hb 0 doubled .unset .null (by decide) hs nofun
  refine ⟨by decide, by decide, by decide, code, hcode, hnames, ?_⟩
  rw [hnames]
  decide

end SchemaForge.Dialect.Builder
