import Mathlib.Data.List.TakeWhile
import SchemaForge.Proofs.Dialect.ArkTypeBalance
import SchemaForge.Proofs.Dialect.ArkTypeTexts
import SchemaForge.Proofs.Dialect.Balance

/-!
# Texts of the document in a module

A text of the document stands in the literal or the comment that is opened for it, and what stands
around the texts does not depend on them.

* `Code.Shielded`: a piece of code with a text of the document is scanned as one literal or comment.
* `declare_ok`, `declareAll_ok`: well-typed entries are declared, with matching brackets.
* `emit_mapTexts`: the module of entries with other texts.
* **`emit_safe`**: the module of well-typed entries is scanned to its end, each text of the document
  inside its literal or comment, and other texts change nothing else.
-/

namespace SchemaForge

/-! ## Pieces with a text -/

namespace Code

/-- A piece of code with a text of the document is scanned as one literal or comment: the scanner
comes to it in code, does not leave it before its end, and is in code again behind it. -/
def Shielded (before : Code) : Piece → Prop
  | .plain _ | .reference .. => True
  | .quoted w => ∃ awaited, Scanner.scan {} (text before).toList = some ⟨.code, awaited⟩ ∧
      Scanner.Enclosed awaited ['"'] (Quoted.encode w.text.toList) ['"']
  | .comment words indent => ∃ awaited body,
      Scanner.scan {} (text before).toList = some ⟨.code, awaited⟩ ∧
      (docComment words indent).toList = indent.toList ++ ['/', '*'] ++ body ++ ['*', '/'] ∧
      Scanner.Enclosed awaited (indent.toList ++ ['/', '*']) body ['*', '/']

/-- **Every text of the document in balanced code** stands inside its literal or comment. -/
theorem Balanced.shielded {before after : Code} {p : Piece}
    (h : Balanced (before ++ p :: after)) : Shielded before p := by
  rw [Balanced, scan_append, Option.bind_eq_some_iff] at h
  obtain ⟨awaited, hbefore, h⟩ := h
  rw [scan_cons, Option.bind_eq_some_iff] at h
  obtain ⟨rest, hp, -⟩ := h
  have hscan := scan_text hbefore
  cases p with
  | plain | reference => exact True.intro
  | quoted w => exact ⟨awaited, hscan, Scanner.enclosed_quoted awaited _⟩
  | comment words indent =>
    obtain ⟨-, ht, hi⟩ := Piece.scan_comment hp
    obtain ⟨body, htext, hbody⟩ := Scanner.enclosed_comment awaited ht hi
    exact ⟨awaited, body, hscan, htext, hbody⟩

end Code

namespace Dialect

open Code (Balanced scanWords)

/-! ## Statements of a library -/

section Statements

variable {awaited : List Char} {words words' : String}

theorem scanWords_both (h : scanWords awaited words = some awaited)
    (h' : scanWords awaited words' = some awaited) :
    scanWords awaited (words ++ words') = some awaited :=
  (Code.scanWords_append h).trans h'

theorem scanWords_inferred (lib : Library) (h : ∀ awaited, scanWords awaited words = some awaited) :
    scanWords [] (lib.inferred words) = some [] := by
  cases lib <;>
    exact scanWords_both (scanWords_both (by decide) (h [])) (by decide)

theorem scanWords_typeLine (lib : Library) (h : ∀ awaited, scanWords awaited words = some awaited)
    (h' : ∀ awaited, scanWords awaited words' = some awaited) :
    scanWords [] (lib.typeStatement words words' ++ ";") = some [] := by
  have hopen : scanWords [] "export type " = some [] := by decide
  have hequals : scanWords [] " = " = some [] := by decide
  have hend : scanWords [] ";" = some [] := by decide
  exact scanWords_both (scanWords_both (scanWords_both (scanWords_both hopen (h' [])) hequals)
    (scanWords_inferred lib h)) hend

theorem scanWords_adapterLine (h : ∀ awaited, scanWords awaited words = some awaited)
    (h' : ∀ awaited, scanWords awaited (Name.adapterVar words) = some awaited) :
    scanWords [] (Effect.adapterLine words) = some [] := by
  have hopen : scanWords [] "export const " = some [] := by decide
  have hcall : scanWords [] " = Schema.standardSchemaV1(" = some [')'] := by decide
  have hend : scanWords [')'] ");" = some [] := by decide
  rw [Effect.adapterLine, String.append_assoc, String.append_assoc,
    Code.scanWords_append (scanWords_both hopen (h' [])), Code.scanWords_append hcall,
    Code.scanWords_append (h [')'])]
  exact hend

theorem scanWords_importStatement (lib : Library) :
    scanWords [] (lib.importStatement ++ ";") = some [] := by
  cases lib <;> decide

end Statements

/-! ## Declarations of well-typed entries -/

variable {ctx : Context}

theorem expression_ok (hc : ctx.options.customScalars = []) {s : Schema} (hs : s.WellTyped) :
    ∃ c, (expression ctx s).outcome = .ok c ∧ Balanced c := by
  have hcustom := customScalar?_eq_none hc
  unfold expression
  rcases hb : builder? ctx.library with _ | b
  · obtain ⟨d, hd, hsound⟩ := ArkType.render_sound hcustom hs 0
    exact ⟨_, Logged.outcome_bind hd _, hsound.asExpression⟩
  · exact Builder.render_balanced (Builder.lexical_of_library hb) hcustom hs 0

/-- **A well-typed entry** is declared, and the brackets of each line match. -/
theorem declare_ok (hc : ctx.options.customScalars = []) {e : Entry} (he : e.WellTyped) :
    ∃ d, (declare ctx e).outcome = .ok d ∧ ∀ line ∈ d.lines, Balanced line := by
  obtain ⟨code, hcode, hbal⟩ := @expression_ok { ctx with current := e.name } hc _ he.schema
  obtain ⟨doc, hdoc, hbal'⟩ : ∃ doc, Code.comment e.schema.description "" = .ok doc ∧
      Balanced doc := Code.comment_ok he.schema.description nofun
  refine ⟨_, by rw [declare, Logged.outcome_bind hcode, Logged.outcome_lift_bind hdoc]; rfl, ?_⟩
  have hname := Code.scanWords_of_wordy (Code.wordy_identifier he.name)
  have hvar := Code.scanWords_of_wordy (Code.wordy_schemaVar he.name)
  have hadapter :=
    Code.scanWords_of_wordy (Code.wordy_adapterVar (Code.wordy_schemaVar he.name))
  have hopen : scanWords [] ("export const " ++ Name.schemaVar e.name ++ " = ") = some [] :=
    scanWords_both (scanWords_both (by decide) (hvar [])) (by decide)
  have hend : scanWords [] ";" = some [] := by decide
  rw [Declaration.lines, List.cons_append, List.forall_mem_cons, List.forall_mem_append]
  refine ⟨Code.balanced_nil, Code.balanced_commentedLine hbal' ?_, Code.balanced_each ?_⟩
  · exact ((Code.balanced_plain.mpr hopen).append hbal).append (Code.balanced_plain.mpr hend)
  · refine List.forall_mem_cons.mpr ⟨scanWords_typeLine ctx.library hvar hname, ?_⟩
    dsimp only
    split
    · exact List.forall_mem_singleton.mpr (scanWords_adapterLine hvar hadapter)
    · exact nofun

theorem declareAll_ok : ∀ {entries : List Entry} {ctx : Context},
    ctx.options.customScalars = [] → (∀ e ∈ entries, e.WellTyped) →
    ∃ ds, (declareAll ctx entries).outcome = .ok ds ∧
      ∀ d ∈ ds, ∀ line ∈ d.lines, Balanced line
  | [], ctx, _, _ => ⟨[], by rw [declareAll]; rfl, nofun⟩
  | e :: entries, ctx, hc, h => by
    rw [List.forall_mem_cons] at h
    obtain ⟨d, hd, hlines⟩ := declare_ok hc h.1
    obtain ⟨ds, hds, hall⟩ :=
      @declareAll_ok entries { ctx with declared := e.name :: ctx.declared } hc h.2
    exact ⟨d :: ds, by rw [declareAll, Logged.outcome_bind hd, Logged.outcome_bind hds]; rfl,
      List.forall_mem_cons.mpr ⟨hlines, hall⟩⟩

theorem Module.balanced_code {m : Module}
    (h : ∀ d ∈ m.declarations, ∀ line ∈ d.lines, Balanced line) : Balanced m.code := by
  have hend : Balanced [.plain "\n"] := Code.balanced_plain.mpr (by decide)
  have hheader : ∀ words ∈ headerLines, scanWords [] words = some [] := by decide
  have hlines : ∀ line ∈ m.lines, Balanced line := by
    rw [Module.lines, List.forall_mem_append]
    constructor
    · refine Code.balanced_each (List.forall_mem_append.mpr ⟨hheader, ?_⟩)
      exact List.forall_mem_singleton.mpr (scanWords_importStatement m.library)
    · intro line hl
      obtain ⟨d, hd, hl⟩ := List.mem_flatMap.mp hl
      exact h d hd line hl
  rw [Module.code, List.flatMap_def]
  exact Code.balanced_flatten (List.forall_mem_map.mpr fun line hl => (hlines line hl).append hend)

/-! ## Declarations with other texts -/

/-- The declaration with other texts. -/
def Declaration.mapTexts (r : Replacement) (d : Declaration) : Declaration :=
  { d with doc := Code.mapTexts r d.doc, code := Code.mapTexts r d.code }

/-- The module with other texts. -/
def Module.mapTexts (r : Replacement) (m : Module) : Module :=
  { m with declarations := m.declarations.map (Declaration.mapTexts r) }

variable (r : Replacement)

theorem Declaration.lines_mapTexts (d : Declaration) :
    (d.mapTexts r).lines = d.lines.map (Code.mapTexts r) := by
  rw [Declaration.lines, Declaration.lines, List.map_append, List.map_cons, Code.mapTexts_each,
    ← Code.commentedLine_mapTexts, Code.mapTexts_append, Code.mapTexts_append]
  rfl

theorem Module.code_mapTexts (m : Module) : (m.mapTexts r).code = Code.mapTexts r m.code := by
  have hlines : (m.mapTexts r).lines = m.lines.map (Code.mapTexts r) := by
    rw [Module.lines, Module.lines, List.map_append, Code.mapTexts_each, List.map_flatMap]
    change _ ++ (m.declarations.map (Declaration.mapTexts r)).flatMap _ = _
    rw [List.flatMap_map]
    simp only [Declaration.lines_mapTexts]
    rfl
  rw [Module.code, hlines, Module.code, List.flatMap_map, List.flatMap_def, List.flatMap_def,
    Code.mapTexts_flatten, List.map_map]
  simp only [Function.comp_def, Code.mapTexts_append]
  rfl

theorem expression_mapTexts (ctx : Context) (s : Schema) :
    expression ctx (s.mapTexts r) = Code.mapTexts r <$> expression ctx s := by
  unfold expression
  rcases hb : builder? ctx.library with _ | b
  · dsimp only
    rw [ArkType.render_mapTexts s 0]
    simp only [map_eq_pure_bind, bind_assoc, pure_bind, ArkType.Definition.asExpression_mapTexts]
  · exact Builder.render_mapTexts (Builder.natural_of_library r hb) s 0

theorem declare_mapTexts (ctx : Context) (e : Entry) :
    declare ctx (e.mapTexts r) = Declaration.mapTexts r <$> declare ctx e := by
  unfold declare
  rw [show (e.mapTexts r).schema = e.schema.mapTexts r from rfl,
    show (e.mapTexts r).name = e.name from rfl, expression_mapTexts, Schema.description_mapTexts,
    Code.comment_mapTexts, Logged.lift_map]
  simp only [map_eq_pure_bind, bind_assoc, pure_bind]
  rfl

theorem declareAll_mapTexts : ∀ (ctx : Context) (entries : List Entry),
    declareAll ctx (entries.map (Entry.mapTexts r)) =
      List.map (Declaration.mapTexts r) <$> declareAll ctx entries
  | _, [] => by
    rw [List.map_nil, declareAll, map_pure]
    rfl
  | ctx, e :: entries => by
    rw [List.map_cons, declareAll, declareAll, declare_mapTexts, declareAll_mapTexts]
    simp only [map_eq_pure_bind, bind_assoc, pure_bind, List.map_cons]
    rfl

/-- **The module of entries with other texts** is the module with these texts in their places. -/
theorem emit_mapTexts (lib : Library) (options : Options) (entries : List Entry) :
    emit lib options (entries.map (Entry.mapTexts r)) =
      (emit lib options entries).map (Module.mapTexts r) := by
  have hnames : (entries.map (Entry.mapTexts r)).map (·.name) = entries.map (·.name) := by
    rw [List.map_map]
    rfl
  unfold emit
  dsimp only
  rw [hnames, declareAll_mapTexts, map_eq_pure_bind]
  rcases h : (declareAll _ entries).outcome with f | ds
  · rw [Logged.outcome_bind_error h]
    rfl
  · rw [Logged.outcome_bind h, Logged.log_bind h, Logged.log_pure, List.append_nil]
    rfl

/-! ## Modules -/

variable {lib : Library} {options : Options} {entries : List Entry}

/-- **A module of well-typed entries keeps the texts of the document apart from its code.** The
entries have a module. The scanner meets no bracket that does not match, and comes to the end of the
module in code, with no bracket awaited. Every text of the document stands inside the one literal or
comment that is opened for it, whatever the text is; and with other texts the module differs in these
literals and comments only. -/
theorem emit_safe (h : ∀ e ∈ entries, e.WellTyped) (hc : options.customScalars = []) :
    ∃ m, emit lib options entries = .ok m ∧
      Code.Scanner.scan {} m.content.toList = some {} ∧
      (∀ before p after, m.code = before ++ p :: after → Code.Shielded before p) ∧
      ∀ r : Replacement, (emit lib options (entries.map (Entry.mapTexts r))).map Module.code =
        .ok (Code.mapTexts r m.code) := by
  obtain ⟨ds, hds, hlines⟩ := @declareAll_ok entries {
    options, library := lib, moduleNames := entries.map (·.name), declared := []
    current := "" } hc h
  obtain ⟨warnings, hm⟩ : ∃ warnings, emit lib options entries = .ok ⟨lib, ds, warnings⟩ :=
    ⟨_, by rw [emit, hds]; rfl⟩
  refine ⟨_, hm, ?_, fun before p after hsplit => ?_, fun r => ?_⟩
  · exact Code.scan_text (Module.balanced_code hlines)
  · exact Code.Balanced.shielded (hsplit ▸ Module.balanced_code hlines)
  · rw [emit_mapTexts, hm]
    exact congrArg Except.ok (Module.code_mapTexts r _)

/-! ## Texts that try to leave their places -/

theorem isBlank_quote (s : String) : Code.isBlank ("\"" ++ s) = false := by
  have hleft : Text.stripLeft ('"' :: s.toList) = '"' :: s.toList := by
    rw [Text.stripLeft, List.dropWhile_cons_of_neg (by decide)]
  rw [Code.isBlank, String.toList_append]
  change (Text.strip ('"' :: s.toList)).isEmpty = false
  rw [Text.strip, hleft, Text.stripRight, List.isEmpty_reverse, List.isEmpty_eq_false_iff, ne_eq,
    List.dropWhile_eq_nil_iff]
  exact fun h => absurd (h '"' (by simp)) (by decide)

/-- A quote before every text, except where a text is blank or an identifier. -/
def quoting : Replacement where
  text s := if Code.isBlank s || Name.isIdentifier s then s else "\"" ++ s
  alike s := by
    split
    · exact ⟨Iff.rfl, rfl, rfl, fun _ _ => rfl⟩
    · rename_i h
      rw [Bool.or_eq_true, not_or, Bool.not_eq_true, Bool.not_eq_true] at h
      have hquote : '"' ∈ ("\"" ++ s).toList := by simp
      have hne : s ≠ "" := fun hs => absurd (hs ▸ h.1) (by decide)
      have hne' : "\"" ++ s ≠ "" := fun hs => absurd (hs ▸ hquote) (by decide)
      refine ⟨iff_of_false hne' hne, (isBlank_quote s).trans h.1.symm, ?_, fun c hc => ?_⟩
      · rw [h.2, ← Bool.not_eq_true]
        exact fun hi => absurd (Code.wordy_identifier hi _ hquote) (by decide)
      · have hc' : c ≠ '"' := by
          rintro rfl
          simp at hc
        simp [hc']

/-- A note with a title, tags and a body, whose descriptions, keys, pattern and values are written to
end the literal or the comment that they stand in. -/
def notes : List Entry := [
  .of "Note" (.object [
    (.str "*/ title", { schema := .string none .null (.int 3) (.str "\"/*\\") .null,
                        description := .str "*/ evil() /*" }),
    (.str "\"]\x7d", { schema := .enum [.str "\"); evil(", .int 1, .bool true] .null }),
    (.str "body", { schema := .literal (.str "\\\n") .null })] .rejected (.str "*/\nevil()")) none,
  .of "Notes" (.array (.ref "Note" .null) .null) none]

theorem wellTyped_notes : ∀ e ∈ notes, e.WellTyped := by
  unfold notes
  rw [List.forall_mem_cons, List.forall_mem_singleton]
  refine ⟨⟨by decide, .object ?_ ?_ ?_ nofun rfl⟩, ⟨by decide, .array (.ref (by decide) rfl) rfl⟩⟩
  · simp
  · simp [Value.isTextOrNull]
  · simp only [List.forall_mem_cons, List.not_mem_nil, false_implies, implies_true, and_true]
    exact ⟨.string rfl rfl rfl rfl, .enum (by simp [Value.isScalar, Value.isNumber]) rfl,
      .literal rfl rfl⟩

/-- The texts stand in the module as they are in the document, and none of them leaves its place. -/
theorem emit_notes : (∀ e ∈ notes, e.WellTyped) ∧
    ∃ m, emit .effect { standardSchema := true } notes = .ok m ∧
      [.comment "*/ evil() /*" "  ", .quoted [.key "*/ title"], .quoted [.taken "\"/*\\"],
        .quoted [.taken "\"); evil("]] ⊆ m.code ∧
      Code.Scanner.scan {} m.content.toList = some {} ∧
      (∀ before p after, m.code = before ++ p :: after → Code.Shielded before p) ∧
      (emit .effect { standardSchema := true } (notes.map (Entry.mapTexts quoting))).map
        Module.code = .ok (Code.mapTexts quoting m.code) := by
  obtain ⟨m, hm, hscan, hshielded, hothers⟩ :=
    @emit_safe .effect { standardSchema := true } notes wellTyped_notes rfl
  refine ⟨wellTyped_notes, m, hm, ?_, hscan, hshielded, hothers quoting⟩
  have hcode : (emit .effect { standardSchema := true } notes).map (fun m =>
      [.comment "*/ evil() /*" "  ", .quoted [.key "*/ title"], .quoted [.taken "\"/*\\"],
        .quoted [.taken "\"); evil("]].all m.code.contains) = .ok true := by
    decide
  rw [hm] at hcode
  simpa [List.subset_def] using Except.ok.inj hcode

end Dialect

end SchemaForge
