import SchemaForge.Proofs.Dialect.Definitions
import SchemaForge.Proofs.Dialect.TypeLanguage
import SchemaForge.Proofs.Number.Shortest
import SchemaForge.Proofs.Schema.Nodes

/-!
# Texts of the type language

Schemas of words, numbers, texts, literals, lists, unions and intersections become texts. Whether a
part is put in parentheses depends on a character of its text, which may well stand in a quoted text
or a regular expression.

* `Textual`: the schemas that become texts; `values`: the values of one.
* `Spells`: what is known of a text of some rank: with no `|` in it a text combines with `&`, and
  with no blank in it it may stand before brackets.
* `spells_group`, `spells_array`, `spells_join`: parentheses, brackets and operators.
* **`render_says`**: the definition of a schema is a text that spells an expression for its
  values.
* **`text_denotes`**: so it is read as one, with null as an alternative or without.
-/

namespace SchemaForge.Dialect.ArkType

open Code (Stretch Wording Wordy escapeSlashes)

/-! ## Texts and their characters -/

theorem text_append (w w' : Wording) : (w ++ w').text = w.text ++ w'.text := by
  simp [Wording.text]

theorem text_cons (p : Stretch) (w : Wording) : Wording.text (p :: w) = p.text ++ w.text := by
  simp [Wording.text]

/-- Words between parts occur in the whole. -/
theorem has_join {between : String} {c : Char} (h : c ∈ between.toList) (w w' : Wording)
    (l : List Wording) : (Wording.join between (w :: w' :: l)).has c = true := by
  have hwords : (Stretch.own between).text = between := rfl
  rw [wording_join_cons, Wording.has, text_append, text_cons, hwords, String.toList_append,
    String.toList_append]
  simp [h]

/-! ## Spelling -/

/-- A text that is read as the lexemes of an expression of a rank. With no `|` in it, its rank is
that of a conjunction at least; with no blank in it, that of an item. -/
structure Spells (r : Rank) (w : Wording) (e : Expr) : Prop where
  exists_lexemes : ∃ ts, Lexer.Lexes w.text.toList ts ∧ Derives r ts e ∧
    (w.has '|' = false → Derives .conjunction ts e) ∧ (w.has ' ' = false → Derives .item ts e)

variable {w w' : Wording} {e f : Expr} {ts : List Lexeme} {r : Rank}

theorem Derives.disjunction (h : Derives r ts e) : Derives .disjunction ts e := by
  cases r with
  | item => exact .ofConjunction (.ofItem h)
  | conjunction => exact .ofConjunction h
  | disjunction => exact h

theorem Derives.ofItemRank (h : Derives .item ts e) (r : Rank) : Derives r ts e := by
  cases r with
  | item => exact h
  | conjunction => exact .ofItem h
  | disjunction => exact .ofConjunction (.ofItem h)

theorem spells_item (hl : Lexer.Lexes w.text.toList ts) (hd : Derives .item ts e) (r : Rank) :
    Spells r w e :=
  ⟨ts, hl, hd.ofItemRank r, fun _ => .ofItem hd, fun _ => hd⟩

theorem Spells.disjunction (h : Spells r w e) : Spells .disjunction w e :=
  let ⟨ts, hl, hd, hc, hi⟩ := h.exists_lexemes
  ⟨ts, hl, hd.disjunction, hc, hi⟩

/-- **A text in parentheses** where it has a character in it, without which it would have the rank
that is asked for. -/
theorem spells_group {c : Char} (h : Spells .disjunction w e)
    (hr : ∀ {ts}, (w.has '|' = false → Derives .conjunction ts e) →
      (w.has ' ' = false → Derives .item ts e) → w.has c = false → Derives r ts e) :
    Spells r (group c w) e := by
  obtain ⟨ts, hl, hd, hc, hi⟩ := h.exists_lexemes
  unfold group
  split
  · have hopen : Lexer.Closes ['('] [.opening] := fun done => rfl
    have hclose : Lexer.Closes [')'] [.closing] := fun done => rfl
    have htext : (Wording.text (.own "(" :: w ++ [.own ")"])).toList =
        ['('] ++ (w.text.toList ++ [')']) := by
      simp [Stretch.text, Wording.text]
    have hlexes := hopen.append_lexes (hl.append_closes rfl hclose).lexes
    rw [← htext] at hlexes
    exact spells_item hlexes (.group hd) r
  · rename_i hnone
    exact ⟨ts, hl, hr hc hi (by simpa using hnone), hc, hi⟩

theorem spells_operand (c : Combination) (h : Spells .disjunction w e) :
    Spells c.rank (c.operand w) e := by
  cases c with
  | or => exact h
  | and => exact spells_group h fun hc _ hnone => hc hnone

/-- **A list** of a text. -/
theorem spells_array (h : Spells .disjunction w e) (r : Rank) :
    Spells r (group ' ' w ++ [.own "[]"]) (.list e) := by
  have hitem : Spells .item (group ' ' w) e := spells_group h fun _ hi hnone => hi hnone
  obtain ⟨ts, hl, hd, -⟩ := hitem.exists_lexemes
  have hbrackets : Lexer.Closes ['[', ']'] [.brackets] := fun done => rfl
  have hlexes := (hl.append_closes rfl hbrackets).lexes
  have htext : (Wording.text (group ' ' w ++ [.own "[]"])).toList =
      (group ' ' w).text.toList ++ ['[', ']'] := by
    rw [text_append, String.toList_append]
    rfl
  rw [← htext] at hlexes
  exact spells_item hlexes (.list hd) r

/-! ## Parts put together -/

/-- An expression put together of others. -/
def Expr.combined (c : Combination) : Expr → List Expr → Expr
  | e, [] => e
  | e, f :: es => .combine c e (combined c f es)

theorem lexes_operator (c : Combination) {cs ds : List Char} {ts us : List Lexeme}
    (h : Lexer.Lexes cs ts) (h' : Lexer.Lexes ds us) :
    Lexer.Lexes (cs ++ (c.operator.toList ++ ds)) (ts ++ .operator c :: us) := by
  obtain ⟨sign, hsign, hcloses⟩ : ∃ sign, c.operator.toList = ' ' :: sign ∧
      Lexer.Closes (' ' :: sign) [.operator c] := by
    cases c with
    | or => exact ⟨['|', ' '], rfl, fun done => rfl⟩
    | and => exact ⟨['&', ' '], rfl, fun done => rfl⟩
  have hall := (h.append_closes rfl hcloses).append_lexes h'
  rwa [List.append_assoc, List.append_assoc, ← hsign] at hall

/-- **Texts with an operator between them.** -/
theorem spells_join (c : Combination) : ∀ {w : Wording} {e : Expr} {ws : List Wording}
    {es : List Expr}, Spells c.rank w e → List.Forall₂ (Spells c.rank) ws es →
      Spells c.rank (Wording.join c.operator (w :: ws)) (.combined c e es)
  | _, _, [], [], h, _ => h
  | w, e, w' :: ws, f :: es, h, .cons h' hs => by
    obtain ⟨ts, hl, hd, -⟩ := h.exists_lexemes
    obtain ⟨us, hl', hd', -⟩ := (spells_join c h' hs).exists_lexemes
    have hblank : ' ' ∈ c.operator.toList := by cases c <;> decide
    have hall : Derives c.rank (ts ++ .operator c :: us) (.combined c e (f :: es)) :=
      .combine c hd hd'
    -- the whole has a blank in it, and a bar if that is the operator, wherever else they may stand
    refine ⟨ts ++ .operator c :: us, ?_, hall, fun hbar => ?_, fun hnone => ?_⟩
    · rw [wording_join_cons, text_append, text_cons, String.toList_append, String.toList_append]
      exact lexes_operator c hl hl'
    · cases c with
      | or => rw [has_join (by decide)] at hbar; cases hbar
      | and => exact hall
    · rw [has_join hblank] at hnone
      cases hnone

/-! ## Leaves -/

theorem spells_word {words : String} (h : Wordy words.toList) (hne : words ≠ "") (r : Rank) :
    Spells r [.own words] (.leaf (.word words)) := by
  have htext : Wording.text [.own words] = words := by simp [Wording.text, Stretch.text]
  refine spells_item ?_ (.word words) r
  rw [htext]
  exact Lexer.lexes_word h hne

/-- The leaf of a format: a regular expression if its text stands in slashes, a word otherwise. -/
def formatLeaf (fmt : Option String) : Leaf :=
  match (format fmt).toList with
  | '/' :: body => .regex (String.ofList body.dropLast)
  | _ => .word (format fmt)

theorem spells_format (fmt : Option String) (r : Rank) :
    Spells r [.own (format fmt)] (.leaf (formatLeaf fmt)) := by
  have hword : ∀ {words : String}, words.toList.all Code.isWordChar → words ≠ "" →
      Spells r [.own words] (.leaf (.word words)) := fun h hne =>
    spells_word (Code.wordy_of_all h) hne r
  unfold formatLeaf format
  split
  · exact hword (by decide) (by decide)
  · exact hword (by decide) (by decide)
  · exact hword (by decide) (by decide)
  · exact hword (by decide) (by decide)
  · exact spells_item (Lexer.Closes.lexes fun done => rfl) (.regex _) r
  · exact spells_item (Lexer.Closes.lexes fun done => rfl) (.regex _) r
  · exact hword (by decide) (by decide)
  · exact hword (by decide) (by decide)
  · exact hword (by decide) (by decide)

/-- The sign of a bound. -/
def sign (atLeast : Bool) : String := if atLeast then " >= " else " <= "

theorem spells_bound {subject limit : String} (atLeast : Bool) (hs : Wordy subject.toList)
    (hs' : subject ≠ "") (hl : Wordy limit.toList) (hl' : limit ≠ "") (r : Rank) :
    Spells r [.own (subject ++ sign atLeast ++ limit)] (.leaf (.bound subject atLeast limit)) := by
  refine spells_item ?_ (.bound subject atLeast limit) r
  obtain ⟨signs, hsign, hcloses⟩ : ∃ signs, (sign atLeast).toList = ' ' :: signs ∧
      Lexer.Closes (' ' :: signs) [.sign atLeast] := by
    cases atLeast with
    | true => exact ⟨['>', '=', ' '], rfl, fun done => rfl⟩
    | false => exact ⟨['<', '=', ' '], rfl, fun done => rfl⟩
  have hall := ((Lexer.lexes_word hs hs').append_closes rfl hcloses).append_lexes
    (Lexer.lexes_word hl hl')
  have htext : Wording.text [.own (subject ++ sign atLeast ++ limit)] =
      subject ++ sign atLeast ++ limit := by simp [Wording.text, Stretch.text]
  rwa [htext, String.toList_append, String.toList_append, hsign]

/-- A bound, if it is given. -/
def boundLeaves (subject : String) (atLeast : Bool) (write : Value → String) (v : Value) :
    List Leaf :=
  if v.isNull then [] else [.bound subject atLeast (write v)]

theorem spells_bounds {subject : String} (atLeast : Bool) (hs : Wordy subject.toList)
    (hs' : subject ≠ "") {write : Value → String}
    (hw : ∀ v : Value, v.isNumber → Wordy (write v).toList ∧ write v ≠ "") {v : Value}
    (hv : v.isNumberOrNull) (r : Rank) :
    List.Forall₂ (Spells r) (boundWording (subject ++ sign atLeast) write v)
      ((boundLeaves subject atLeast write v).map .leaf) := by
  rw [Value.isNumberOrNull, Bool.or_eq_true] at hv
  unfold boundWording boundLeaves
  split
  · exact .nil
  · rename_i hnull
    obtain ⟨hl, hl'⟩ := hw v (hv.resolve_left hnull)
    exact .cons (spells_bound atLeast hs hs' hl hl' r) .nil

theorem spells_append {ws ws' : List Wording} {ls ls' : List Leaf}
    (h : List.Forall₂ (Spells r) ws (ls.map .leaf))
    (h' : List.Forall₂ (Spells r) ws' (ls'.map .leaf)) :
    List.Forall₂ (Spells r) (ws ++ ws') ((ls ++ ls').map .leaf) := by
  rw [List.map_append]
  exact List.rel_append h h'

/-- **Bounds on both sides**, as far as they are given. -/
theorem spells_range {subject : String} (hs : Wordy subject.toList) (hs' : subject ≠ "")
    {write : Value → String} (hw : ∀ v : Value, v.isNumber → Wordy (write v).toList ∧ write v ≠ "")
    {least most : Value} (hl : least.isNumberOrNull) (hm : most.isNumberOrNull) (r : Rank) :
    List.Forall₂ (Spells r)
      (boundWording (subject ++ sign true) write least ++
        boundWording (subject ++ sign false) write most)
      ((boundLeaves subject true write least ++ boundLeaves subject false write most).map .leaf) :=
  spells_append (spells_bounds true hs hs' hw hl r) (spells_bounds false hs hs' hw hm r)

theorem int_ne_empty (n : Int) : toString n ≠ "" := by
  have hnat : ∀ n : Nat, Nat.repr n ≠ "" := fun n =>
    mt String.ofList_eq_empty_iff.mp Nat.toDigits_ne_nil
  cases n with
  | ofNat n => exact hnat n
  | negSucc n =>
    change "-" ++ Nat.repr (n + 1) ≠ ""
    simp

theorem display_word (v : Value) (hv : v.isNumber) : Wordy v.display.toList ∧ v.display ≠ "" := by
  refine ⟨Code.wordy_display hv, ?_⟩
  unfold Value.isNumber at hv
  split at hv
  · exact int_ne_empty _
  · exact Double.text_ne_empty _
  · cases hv

theorem number_word (v : Value) (hv : v.isNumber) : Wordy v.number.toList ∧ v.number ≠ "" := by
  refine ⟨Code.wordy_number hv, ?_⟩
  unfold Value.number
  split
  · split
    · exact int_ne_empty _
    · exact Double.text_ne_empty _
  · exact (display_word v hv).2

/-- A pattern, if it is given. -/
def patternLeaves : Value → List Leaf
  | .atom (.str p) => if p = "" then [] else [.regex p]
  | _ => []

/-- A text without slashes and backslashes. -/
def IsBare (p : String) : Prop := '/' ∉ p.toList ∧ '\\' ∉ p.toList

theorem text_pattern {p : String} (h : '/' ∉ p.toList) :
    (Wording.text [.pattern p]).toList = '/' :: p.toList ++ ['/'] := by
  have hsame : escapeSlashes p.toList = p.toList := by
    rw [escapeSlashes]
    refine (List.flatMap_congr fun c hc => if_neg ?_).trans (List.flatMap_singleton' _)
    rw [beq_iff_eq]
    rintro rfl
    exact h hc
  simp [Wording.text, Stretch.text, hsame]

theorem spells_pattern {pattern : Value} (hp : pattern.isTextOrNull)
    (hbare : ∀ p, pattern = .str p → IsBare p) (r : Rank) : ∃ ws, patternWording pattern = .ok ws ∧
      List.Forall₂ (Spells r) ws ((patternLeaves pattern).map .leaf) := by
  unfold Value.isTextOrNull at hp
  split at hp
  · rename_i p
    obtain ⟨hs, hb⟩ := hbare p rfl
    rw [patternLeaves]
    split
    · rename_i hempty
      exact ⟨[], by rw [hempty]; rfl, .nil⟩
    · rename_i hempty
      refine ⟨[[.pattern p]], if_pos (by simpa [Value.isGiven] using hempty), .cons ?_ .nil⟩
      refine spells_item ?_ (.regex p) r
      rw [text_pattern hs]
      exact (Lexer.closes_regex hs hb).lexes
  · exact ⟨[], rfl, .nil⟩
  · cases hp

/-! ## Schemas -/

/-- The leaf of a literal. -/
def literalLeaf : Value → Leaf
  | .atom (.str s) => .quoted s
  | v => .word (Code.literal v)

theorem spells_literal {v : Value} (hv : v.isScalar)
    (hq : ∀ s, v = .str s → '\'' ∉ s.toList ∧ '\\' ∉ s.toList) (r : Rank) :
    ∃ w, literal v = .text w ∧ Spells r w (.leaf (literalLeaf v)) := by
  unfold Value.isScalar at hv
  split at hv
  · rename_i s
    obtain ⟨hquote, hslash⟩ := hq s rfl
    refine ⟨_, if_neg (by simp [hquote, hslash]), spells_item ?_ (.quoted s) r⟩
    have htext : (Wording.text [.own "'", .taken s, .own "'"]).toList =
        '\'' :: s.toList ++ ['\''] := by simp [Wording.text, Stretch.text]
    rw [htext]
    exact (Lexer.closes_quoted hquote).lexes
  · rename_i b
    refine ⟨_, rfl, ?_⟩
    cases b
    · exact spells_word (Code.wordy_of_all (by decide)) (by decide) r
    · exact spells_word (Code.wordy_of_all (by decide)) (by decide) r
  · have hsame : literal v = Definition.ofWords v.number ∧ literalLeaf v = .word v.number := by
      unfold Value.isNumber at hv
      split at hv
      · exact ⟨rfl, rfl⟩
      · exact ⟨rfl, rfl⟩
      · cases hv
    obtain ⟨hw, hne⟩ := number_word v hv
    exact ⟨_, hsame.1, hsame.2 ▸ spells_word hw hne r⟩

/-- The leaves of a text. -/
def stringLeaves (fmt : Option String) (least most pattern : Value) : List Leaf :=
  formatLeaf fmt :: (boundLeaves "string" true Value.display least ++
    boundLeaves "string" false Value.display most ++ patternLeaves pattern)

/-- The leaves of a number. -/
def numberLeaves (integer : Bool) (least most : Value) : List Leaf :=
  .word (if integer then "number.integer" else "number") ::
    (boundLeaves "number" true Value.number least ++ boundLeaves "number" false Value.number most)

/-- What a combination makes of values. -/
def Combination.gather {V : Type} : Combination → List (Set V) → Set V
  | .or, l => { v | ∃ S ∈ l, v ∈ S }
  | .and, l => { v | ∀ S ∈ l, v ∈ S }

mutual

/-- The values of a schema, as its leaves and lists are interpreted. -/
def values {V : Type} (I : Interpretation V) : Schema → Set V
  | .primitive kind _ => I.leaf (.word (primitive kind))
  | .string fmt least most pattern _ =>
    Combination.and.gather ((stringLeaves fmt least most pattern).map I.leaf)
  | .number integer least most _ =>
    Combination.and.gather ((numberLeaves integer least most).map I.leaf)
  | .literal value _ => I.leaf (literalLeaf value)
  | .array items _ => I.list (values I items)
  | .union members _ => Combination.or.gather (valuesOfAll I members)
  | .intersection members _ => Combination.and.gather (valuesOfAll I members)
  | .object .. | .tuple .. | .record .. | .enum .. | .ref .. | .raw .. | .foreign _ => ∅

/-- The values of each schema of a list. -/
def valuesOfAll {V : Type} (I : Interpretation V) : List Schema → List (Set V)
  | [] => []
  | s :: rest => values I s :: valuesOfAll I rest

end

/-- The schemas that become texts. -/
inductive Textual : Schema → Prop
  | primitive {kind : Primitive} {d : Value} : Textual (.primitive kind d)
  | string {fmt : Option String} {least most pattern d : Value} : least.isNumberOrNull →
    most.isNumberOrNull → pattern.isTextOrNull → (∀ p, pattern = .str p → IsBare p) →
    Textual (.string fmt least most pattern d)
  | number {integer : Bool} {least most d : Value} : least.isNumberOrNull → most.isNumberOrNull →
    Textual (.number integer least most d)
  | literal {v d : Value} : v.isScalar → (∀ s, v = .str s → '\'' ∉ s.toList ∧ '\\' ∉ s.toList) →
    Textual (.literal v d)
  | array {items : Schema} {d : Value} : Textual items → Textual (.array items d)
  | union {members : List Schema} {d : Value} : (∀ s ∈ members, Textual s) →
    Textual (.union members d)
  | intersection {members : List Schema} {d : Value} : (∀ s ∈ members, Textual s) →
    Textual (.intersection members d)

/-- Where a schema has a union or an intersection of nothing, the word that is written for it means
no value, or any. -/
structure Interpretation.Fits {V : Type} (I : Interpretation V) (s : Schema) : Prop where
  never : (∃ d, .union [] d ∈ s.nodes) → I.leaf (.word "never") = ∅
  unknown : (∃ d, .intersection [] d ∈ s.nodes) → I.leaf (.word "unknown") = Set.univ

theorem gather_or_nil {V : Type} : Combination.or.gather ([] : List (Set V)) = ∅ := by
  ext v
  simp [Combination.gather]

theorem gather_and_nil {V : Type} : Combination.and.gather ([] : List (Set V)) = Set.univ := by
  ext v
  simp [Combination.gather]

theorem valuesOfAll_eq {V : Type} (I : Interpretation V) :
    ∀ l : List Schema, valuesOfAll I l = l.map (values I)
  | [] => rfl
  | s :: l => by rw [valuesOfAll, valuesOfAll_eq I l, List.map_cons]

theorem denotes_combined {V : Type} (I : Interpretation V) (c : Combination) (e : Expr)
    (es : List Expr) : (Expr.combined c e es).denotes I =
      c.gather ((e :: es).map (Expr.denotes I)) := by
  induction es generalizing e with
  | nil => cases c <;> simp [Expr.combined, Combination.gather]
  | cons f es ih =>
    rw [Expr.combined, Expr.denotes, ih]
    cases c
    · ext v
      simp [Combination.gather, Combination.meaning]
    · ext v
      simp only [Combination.gather, Combination.meaning, List.map_cons, List.forall_mem_cons,
        Set.mem_inter_iff, Set.mem_ofPred_eq]

/-! ## Definitions -/

/-- A definition that is a text, which spells an expression for the values of a schema. -/
def Says (s : Schema) (d : Definition) : Prop :=
  ∃ w e, d = .text w ∧ Spells .disjunction w e ∧
    ∀ {V : Type} (I : Interpretation V), I.Fits s → e.denotes I = values I s

theorem string_says {fmt : Option String} {least most pattern : Value} (hl : least.isNumberOrNull)
    (hm : most.isNumberOrNull) (hp : pattern.isTextOrNull)
    (hbare : ∀ p, pattern = .str p → IsBare p) (description : Value) :
    ∃ d, string fmt least most pattern = .ok d ∧
      Says (.string fmt least most pattern description) d := by
  obtain ⟨ws, hws, hpattern⟩ := spells_pattern hp hbare .conjunction
  have hword : Wordy "string".toList := Code.wordy_of_all (by decide)
  have hbounds := spells_range hword (by decide) display_word hl hm .conjunction
  have hparts := spells_append hbounds hpattern
  refine ⟨_, by rw [string, hws]; rfl, _, _, rfl,
    (spells_join .and (spells_format fmt .conjunction) hparts).disjunction, fun I _ => ?_⟩
  rw [denotes_combined, values, stringLeaves]
  simp [Expr.denotes, Function.comp_def]

theorem number_says (integer : Bool) {least most : Value} (hl : least.isNumberOrNull)
    (hm : most.isNumberOrNull) (description : Value) :
    Says (.number integer least most description) (number integer least most) := by
  have hword : Wordy "number".toList := Code.wordy_of_all (by decide)
  have hbounds := spells_range hword (by decide) number_word hl hm .conjunction
  have hfirst : Spells .conjunction [.own (if integer then "number.integer" else "number")]
      (.leaf (.word (if integer then "number.integer" else "number"))) := by
    cases integer
    · exact spells_word hword (by decide) _
    · exact spells_word (Code.wordy_of_all (by decide)) (by decide) _
  refine ⟨_, _, rfl, (spells_join .and hfirst hbounds).disjunction, fun I _ => ?_⟩
  rw [denotes_combined, values, numberLeaves]
  simp [Expr.denotes, Function.comp_def]

theorem primitive_says (kind : Primitive) (description : Value) :
    Says (.primitive kind description) (Definition.ofWords (primitive kind)) := by
  refine ⟨_, _, rfl, spells_word (Code.wordy_of_all ?_) ?_ .disjunction, fun I _ => rfl⟩
  · cases kind <;> decide
  · cases kind <;> decide

theorem Interpretation.Fits.part {V : Type} {I : Interpretation V} {s part : Schema} (h : I.Fits s)
    (hp : part.nodes ⊆ s.nodes) : I.Fits part :=
  ⟨fun ⟨d, hd⟩ => h.never ⟨d, hp hd⟩, fun ⟨d, hd⟩ => h.unknown ⟨d, hp hd⟩⟩

theorem array_says {items : Schema} {d : Definition} (h : Says items d) (description : Value) :
    Says (.array items description) (array d) := by
  obtain ⟨w, e, rfl, hw, he⟩ := h
  refine ⟨_, _, rfl, spells_array hw .disjunction, fun I hI => ?_⟩
  have hitems : e.denotes I = values I items := he I (hI.part (List.subset_cons_self _ _))
  rw [Expr.denotes, hitems, values]

/-- Texts of parts, from their definitions. -/
theorem exists_texts {members : List Schema} {ds : List Definition}
    (h : List.Forall₂ Says members ds) : ∃ ws es, ds = ws.map .text ∧
      List.Forall₂ (Spells .disjunction) ws es ∧
      ∀ {V : Type} (I : Interpretation V), (∀ s ∈ members, I.Fits s) →
        es.map (Expr.denotes I) = members.map (values I) := by
  induction h with
  | nil => exact ⟨[], [], rfl, .nil, fun _ _ => rfl⟩
  | cons h _ ih =>
    obtain ⟨w, e, rfl, hw, he⟩ := h
    obtain ⟨ws, es, rfl, hws, hes⟩ := ih
    refine ⟨w :: ws, e :: es, rfl, .cons hw hws, fun I hI => ?_⟩
    rw [List.forall_mem_cons] at hI
    rw [List.map_cons, List.map_cons, he I hI.1, hes I hI.2]

theorem mapM_wording? : ∀ ws : List Wording,
    (ws.map Definition.text).mapM Definition.wording? = some ws
  | [] => rfl
  | w :: ws => by
    rw [List.map_cons, List.mapM_cons, mapM_wording? ws]
    rfl

/-- **Texts put together** spell what is put together of their expressions. -/
theorem spells_combination (c : Combination) {w : Wording} {e : Expr} {ws : List Wording}
    {es : List Expr} (h : Spells .disjunction w e) (hs : List.Forall₂ (Spells .disjunction) ws es) :
    ∃ w', c.apply ((w :: ws).map .text) = .text w' ∧ Spells .disjunction w' (.combined c e es) := by
  cases hs with
  | nil => exact ⟨w, rfl, h⟩
  | @cons w' f ws es h' hs =>
    have hall : List.Forall₂ (Spells c.rank) ((w' :: ws).map c.operand) (f :: es) :=
      List.forall₂_map_left_iff.mpr ((List.Forall₂.cons h' hs).imp fun _ _ => spells_operand c)
    refine ⟨Wording.join c.operator ((w :: w' :: ws).map c.operand), ?_,
      (spells_join c (spells_operand c h) hall).disjunction⟩
    have htexts := mapM_wording? (w :: w' :: ws)
    rw [List.map_cons, List.map_cons] at htexts ⊢
    rw [Combination.apply, htexts]
    exact fun h => nomatch h

theorem combination_says (c : Combination) {s : Schema} {members : List Schema}
    {ds : List Definition} (h : List.Forall₂ Says members ds)
    (hparts : ∀ part ∈ members, part.nodes ⊆ s.nodes)
    (hvalues : ∀ {V : Type} (I : Interpretation V), values I s = c.gather (members.map (values I)))
    (hnothing : members = [] → ∀ {V : Type} (I : Interpretation V), I.Fits s →
      I.leaf (.word c.empty) = c.gather []) : Says s (c.apply ds) := by
  obtain ⟨ws, es, rfl, hspells, hmeans⟩ := exists_texts h
  cases hspells with
  | nil =>
    obtain rfl := List.forall₂_nil_right_iff.mp h
    refine ⟨_, _, rfl, spells_word (Code.wordy_of_all ?_) ?_ .disjunction, fun I hI => ?_⟩
    · cases c <;> decide
    · cases c <;> decide
    · rw [hvalues, Expr.denotes, hnothing rfl I hI]
      rfl
  | @cons w e ws es hw hws =>
    obtain ⟨w', hw', hspells⟩ := spells_combination c hw hws
    refine ⟨w', _, hw', hspells, fun I hI => ?_⟩
    rw [denotes_combined, hmeans I fun part hm => hI.part (hparts part hm), hvalues]

/-- **The definition of a schema** that becomes a text. -/
theorem render_says (ctx : Context) {s : Schema} (hs : Textual s) :
    ∀ depth, ∃ d, (render ctx depth s).outcome = .ok d ∧ Says s d := by
  induction hs with
  | primitive => exact fun depth => ⟨_, by rw [render]; rfl, primitive_says _ _⟩
  | string hl hm hp hbare =>
    intro depth
    obtain ⟨d, hd, hsays⟩ := string_says hl hm hp hbare _
    exact ⟨d, by rw [render, Logged.outcome_lift, hd], hsays⟩
  | number hl hm => exact fun depth => ⟨_, by rw [render]; rfl, number_says _ hl hm _⟩
  | @literal v d hv hq =>
    intro depth
    obtain ⟨w, hw, hspells⟩ := spells_literal hv hq .disjunction
    exact ⟨_, by rw [render]; rfl, w, _, hw, hspells, fun I _ => rfl⟩
  | array _ ih =>
    intro depth
    obtain ⟨d, hd, hsays⟩ := ih depth
    exact ⟨_, by rw [render, Logged.outcome_bind hd]; rfl, array_says hsays _⟩
  | @union members d _ ih =>
    intro depth
    obtain ⟨ds, hds, hsays⟩ := Logged.outcome_mapM_of_forall fun s hm => ih s hm depth
    refine ⟨_, by rw [render, renderAll_eq, Logged.outcome_bind hds]; rfl,
      combination_says .or hsays (fun s hm => ?_) (fun I => ?_) ?_⟩
    · exact List.Subset.trans (Schema.nodes_subset_all hm) (List.subset_cons_self _ _)
    · rw [values, valuesOfAll_eq]
    · rintro rfl V I hI
      exact (hI.never ⟨d, List.mem_cons_self⟩).trans gather_or_nil.symm
  | @intersection members d _ ih =>
    intro depth
    obtain ⟨ds, hds, hsays⟩ := Logged.outcome_mapM_of_forall fun s hm => ih s hm depth
    refine ⟨_, by rw [render, renderAll_eq, Logged.outcome_bind hds]; rfl,
      combination_says .and hsays (fun s hm => ?_) (fun I => ?_) ?_⟩
    · exact List.Subset.trans (Schema.nodes_subset_all hm) (List.subset_cons_self _ _)
    · rw [values, valuesOfAll_eq]
    · rintro rfl V I hI
      exact (hI.unknown ⟨d, List.mem_cons_self⟩).trans gather_and_nil.symm

/-! ## Reading texts back -/

/-- **A text that spells an expression** is read as one that stands for the same values. -/
theorem Spells.parse (h : Spells r w e) : ∃ e', parse w.text = some e' ∧ e'.Equiv e := by
  obtain ⟨ts, hl, hd, -⟩ := h.exists_lexemes
  obtain ⟨e', hread, he⟩ := Parser.read_of_derives hd.disjunction
  exact ⟨e', by rw [ArkType.parse, hl.read, Option.bind_some, hread], he⟩

/-- What a wording spells depends on its text only. -/
theorem Spells.of_text (h : Spells r w e) (ht : w'.text = w.text) : Spells r w' e := by
  obtain ⟨ts, hl, hd, hc, hi⟩ := h.exists_lexemes
  have hhas : ∀ c, w'.has c = w.has c := fun c => by rw [Wording.has, ht, Wording.has]
  exact ⟨ts, ht ▸ hl, hd, hhas _ ▸ hc, hhas _ ▸ hi⟩

/-- A text with null as an alternative. -/
theorem Spells.orNull (h : Spells .disjunction w e) :
    Spells .disjunction (w ++ [.own " | null"]) (.combine .or e (.leaf (.word "null"))) := by
  have hnull : Spells .disjunction [.own "null"] (.leaf (.word "null")) :=
    spells_word (Code.wordy_of_all (by decide)) (by decide) _
  refine (spells_join .or h (.cons hnull .nil)).of_text ?_
  rw [wording_join_cons, text_append, text_append]
  rfl

theorem property_nullish {p : Property Schema} (hr : p.required = false) (ha : p.absence = .nullish)
    (w : Wording) : property p (.text w) = .text (w ++ [.own " | null"]) := by
  simp [property, hr, ha, Definition.orNull]

/-- **Main statement.** A schema of words, numbers, texts, literals, lists, unions and intersections
becomes a text that is read as an expression for the values of the schema, whatever the leaves stand
for; with null added for a property that may be missing or null, the text is read as one for these
values and those of null. -/
theorem text_denotes (ctx : Context) (depth : Nat) {s : Schema} (hs : Textual s) :
    ∃ w, (render ctx depth s).outcome = .ok (.text w) ∧
      (∃ e, parse w.text = some e ∧
        ∀ {V : Type} (I : Interpretation V), I.Fits s → e.denotes I = values I s) ∧
      ∀ p : Property Schema, p.required = false → p.absence = .nullish →
        ∃ w', property p (.text w) = .text w' ∧ ∃ e, parse w'.text = some e ∧
          ∀ {V : Type} (I : Interpretation V), I.Fits s →
            e.denotes I = values I s ∪ I.leaf (.word "null") := by
  obtain ⟨d, hd, w, e, rfl, hspells, hmeans⟩ := render_says ctx hs depth
  refine ⟨w, hd, ?_, fun p hrequired habsence => ?_⟩
  · obtain ⟨e', hparse, he⟩ := hspells.parse
    exact ⟨e', hparse, fun I hI => (he _ I).trans (hmeans I hI)⟩
  · obtain ⟨e', hparse, he⟩ := hspells.orNull.parse
    refine ⟨_, property_nullish hrequired habsence w, e', hparse, fun I hI => ?_⟩
    rw [he _ I, Expr.denotes, hmeans I hI]
    rfl

/-- A schema whose literals and patterns have operators, blanks and parentheses in them. -/
def tangled : Schema := .intersection
  [.array (.union [.literal (.str "a | (b") .null, .array (.text (some "date")) .null] .null) .null,
    .string (some "email") (.int 3) .null (.str "^[|' (]+$") .null,
    .union [.number true (.float (.finite true 3 (-1))) .null .null, .literal (.bool true) .null,
      .union [] .null] .null] .null

theorem tangled_textual : Textual tangled := by
  refine .intersection ?_
  simp only [List.forall_mem_cons, List.not_mem_nil, false_imp_iff, implies_true, and_true]
  refine ⟨.array (.union ?_), ?_, .union ?_⟩
  · simp only [List.forall_mem_cons, List.not_mem_nil, false_imp_iff, implies_true, and_true]
    refine ⟨.literal rfl ?_, .array (.string rfl rfl rfl nofun)⟩
    rintro _ ⟨⟩
    decide
  · refine .string rfl rfl rfl ?_
    rintro _ ⟨⟩
    exact ⟨by decide, by decide⟩
  · simp only [List.forall_mem_cons, List.not_mem_nil, false_imp_iff, implies_true, and_true]
    exact ⟨.number rfl rfl, .literal rfl nofun, .union nofun⟩

/-- The interpretation in which all leaves but one mean any value. -/
def anything : Interpretation Nat where
  leaf l := if l = .word "never" then ∅ else Set.univ
  list S := S

theorem anything_fits (s : Schema) : anything.Fits s :=
  ⟨fun _ => by simp [anything], fun _ => by simp [anything]⟩

theorem tangled_denotes : Textual tangled ∧ ∃ w,
    (render default 0 tangled).outcome = .ok (.text w) ∧
    w.text = "(('a | (b' | /^\\d\x7b4\x7d-\\d\x7b2\x7d-\\d\x7b2\x7d$/[])[]) & " ++
      "(string.email & string >= 3 & /^[|' (]+$/) & " ++
      "(number.integer & number >= -1.5 | true | never)" ∧
    (∃ e, parse w.text = some e ∧ e.denotes anything = values anything tangled) ∧
    ∃ w', property { schema := tangled, required := false } (.text w) = .text w' ∧
      ∃ e, parse w'.text = some e ∧ e.denotes anything =
        values anything tangled ∪ anything.leaf (.word "null") := by
  obtain ⟨w, hw, ⟨e, hparse, he⟩, hnullish⟩ := text_denotes default 0 tangled_textual
  obtain ⟨w', hw', e', hparse', he'⟩ :=
    hnullish { schema := tangled, required := false } rfl rfl
  refine ⟨tangled_textual, w, hw, ?_, ⟨e, hparse, he _ (anything_fits _)⟩, w', hw', e', hparse',
    he' _ (anything_fits _)⟩
  obtain rfl : _ = w := Definition.text.inj (Except.ok.inj hw)
  decide +kernel

end SchemaForge.Dialect.ArkType
