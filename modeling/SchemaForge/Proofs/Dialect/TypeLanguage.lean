import Mathlib.Data.Set.Basic
import SchemaForge.Proofs.Code.Words

/-!
# The type language

The texts of ArkType are expressions of a small language: words, quoted texts, regular expressions
and bounds, lists of them, and combinations. A list binds tighter than `&`, which binds tighter than
`|`, and parentheses override both.

* `Expr`, `Expr.denotes`: expressions, and the values that one stands for when its leaves are
  interpreted in any way.
* `Lexer.read`: the lexemes of a text; `Parser.read`: the expression of lexemes; `parse`: both.
* `Derives`: the grammar, with a rank for each kind of operator; what combines three parts may be
  grouped either way.
* **`read_of_derives`**: what the grammar derives is read as an expression that stands for the same
  values.
-/

namespace SchemaForge.Dialect.ArkType

open Code (isWordChar Wordy)

/-! ## Expressions -/

/-- An expression without parts. -/
inductive Leaf where
  /-- The name of a type, or a number. -/
  | word (name : String)
  /-- A text in single quotes. -/
  | quoted (text : String)
  /-- A regular expression. -/
  | regex (body : String)
  /-- A lower or an upper bound. -/
  | bound (subject : String) (atLeast : Bool) (limit : String)
  deriving DecidableEq, Repr

/-- An expression. -/
inductive Expr where
  | leaf (l : Leaf)
  | list (items : Expr)
  | combine (c : Combination) (left right : Expr)
  deriving DecidableEq, Repr

/-- What leaves and lists stand for. -/
structure Interpretation (V : Type) where
  leaf : Leaf → Set V
  list : Set V → Set V

/-- Alternatives are a union, and what must hold together an intersection. -/
def Combination.meaning {V : Type} : Combination → Set V → Set V → Set V
  | .or, s, t => s ∪ t
  | .and, s, t => s ∩ t

namespace Expr

variable {V : Type}

/-- The values that an expression stands for. -/
def denotes (I : Interpretation V) : Expr → Set V
  | .leaf l => I.leaf l
  | .list e => I.list (e.denotes I)
  | .combine c e f => c.meaning (e.denotes I) (f.denotes I)

/-- Expressions that stand for the same values, whatever their leaves stand for. -/
def Equiv (e f : Expr) : Prop := ∀ (V : Type) (I : Interpretation V), e.denotes I = f.denotes I

variable {e e' f f' g : Expr}

@[refl] theorem Equiv.refl (e : Expr) : e.Equiv e := fun _ _ => rfl

theorem Equiv.trans (h : e.Equiv f) (h' : f.Equiv g) : e.Equiv g :=
  fun V I => (h V I).trans (h' V I)

theorem Equiv.list (h : e.Equiv f) : Equiv (.list e) (.list f) := fun V I => congrArg I.list (h V I)

theorem Equiv.combine (c : Combination) (h : e.Equiv e') (h' : f.Equiv f') :
    Equiv (.combine c e f) (.combine c e' f') := fun V I => congrArg₂ c.meaning (h V I) (h' V I)

theorem equiv_assoc (c : Combination) (e f g : Expr) :
    Equiv (.combine c (.combine c e f) g) (.combine c e (.combine c f g)) := by
  intro V I
  cases c
  · exact Set.union_assoc _ _ _
  · exact Set.inter_assoc _ _ _

end Expr

/-! ## Lexemes -/

/-- A lexeme of the type language. -/
inductive Lexeme where
  | word (name : String)
  | quoted (text : String)
  | regex (body : String)
  | sign (atLeast : Bool)
  | operator (c : Combination)
  | brackets
  | opening
  | closing
  deriving DecidableEq, Repr

namespace Lexer

/-- Where a lexer is: between lexemes, or in one, of which it has read a part. -/
inductive Mode where
  | blank
  | word (part : List Char)
  | quoted (part : List Char)
  | regex (part : List Char)
  | escape (part : List Char)
  | bracket
  | sign (atLeast : Bool)
  deriving DecidableEq, Repr

/-- Where a lexer is, and the lexemes behind it. -/
structure State where
  mode : Mode := .blank
  done : List Lexeme := []
  deriving DecidableEq, Repr

/-- A character that no word goes on with. -/
def start (done : List Lexeme) (c : Char) : Option State :=
  match c with
  | ' ' => some ⟨.blank, done⟩
  | '|' => some ⟨.blank, done ++ [.operator .or]⟩
  | '&' => some ⟨.blank, done ++ [.operator .and]⟩
  | '(' => some ⟨.blank, done ++ [.opening]⟩
  | ')' => some ⟨.blank, done ++ [.closing]⟩
  | '\'' => some ⟨.quoted [], done⟩
  | '/' => some ⟨.regex [], done⟩
  | '[' => some ⟨.bracket, done⟩
  | '>' => some ⟨.sign true, done⟩
  | '<' => some ⟨.sign false, done⟩
  | c => if isWordChar c then some ⟨.word [c], done⟩ else none

/-- One character. In a regular expression, a backslash takes the next one with it. -/
def step (s : State) (c : Char) : Option State :=
  match s.mode with
  | .blank => start s.done c
  | .word part =>
    if isWordChar c then some ⟨.word (part ++ [c]), s.done⟩
    else start (s.done ++ [.word (String.ofList part)]) c
  | .quoted part =>
    if c = '\'' then some ⟨.blank, s.done ++ [.quoted (String.ofList part)]⟩
    else some ⟨.quoted (part ++ [c]), s.done⟩
  | .regex part =>
    if c = '/' then some ⟨.blank, s.done ++ [.regex (String.ofList part)]⟩
    else if c = '\\' then some ⟨.escape (part ++ [c]), s.done⟩
    else some ⟨.regex (part ++ [c]), s.done⟩
  | .escape part => some ⟨.regex (part ++ [c]), s.done⟩
  | .bracket => if c = ']' then some ⟨.blank, s.done ++ [.brackets]⟩ else none
  | .sign atLeast => if c = '=' then some ⟨.blank, s.done ++ [.sign atLeast]⟩ else none

theorem step_blank (done : List Lexeme) (c : Char) : step ⟨.blank, done⟩ c = start done c := rfl

theorem step_word (part : List Char) (done : List Lexeme) (c : Char) :
    step ⟨.word part, done⟩ c = if isWordChar c then some ⟨.word (part ++ [c]), done⟩
      else start (done ++ [.word (String.ofList part)]) c := rfl

theorem step_quoted (part : List Char) (done : List Lexeme) (c : Char) :
    step ⟨.quoted part, done⟩ c =
      if c = '\'' then some ⟨.blank, done ++ [.quoted (String.ofList part)]⟩
      else some ⟨.quoted (part ++ [c]), done⟩ := rfl

theorem step_regex (part : List Char) (done : List Lexeme) (c : Char) :
    step ⟨.regex part, done⟩ c =
      if c = '/' then some ⟨.blank, done ++ [.regex (String.ofList part)]⟩
      else if c = '\\' then some ⟨.escape (part ++ [c]), done⟩
      else some ⟨.regex (part ++ [c]), done⟩ := rfl

/-- A text. -/
def run (s : State) (cs : List Char) : Option State := cs.foldlM step s

/-- The lexemes behind a lexer, if a text may end where it is. -/
def State.lexemes? (s : State) : Option (List Lexeme) :=
  match s.mode with
  | .blank => some s.done
  | .word part => some (s.done ++ [.word (String.ofList part)])
  | _ => none

/-- The lexemes of a text. -/
def read (cs : List Char) : Option (List Lexeme) := (run {} cs).bind State.lexemes?

/-! ### Texts in parts -/

variable {s s' : State} {ts us done : List Lexeme} {cs ds : List Char}

theorem run_append (h : run s cs = some s') : run s (cs ++ ds) = run s' ds := by
  rw [run, List.foldlM_append, ← run, h]
  rfl

theorem run_cons {c : Char} (h : step s c = some s') : run s (c :: cs) = run s' cs := by
  rw [run, List.foldlM_cons, h]
  rfl

/-- A text that is read to its end as lexemes, whatever stands before it. -/
def Closes (cs : List Char) (ts : List Lexeme) : Prop :=
  ∀ done, run ⟨.blank, done⟩ cs = some ⟨.blank, done ++ ts⟩

/-- A text that is read as lexemes if it ends or no word goes on behind it. -/
def Lexes (cs : List Char) (ts : List Lexeme) : Prop :=
  ∀ done, ∃ s, run ⟨.blank, done⟩ cs = some s ∧ s.lexemes? = some (done ++ ts)

theorem Closes.lexes (h : Closes cs ts) : Lexes cs ts := fun done => ⟨_, h done, rfl⟩

theorem Closes.append_lexes (h : Closes cs ts) (h' : Lexes ds us) :
    Lexes (cs ++ ds) (ts ++ us) := by
  intro done
  obtain ⟨s, hrun, hs⟩ := h' (done ++ ts)
  exact ⟨s, (run_append (h done)).trans hrun, by rw [hs, List.append_assoc]⟩

/-- A character that no word goes on with ends a word. -/
theorem step_of_lexemes {c : Char} (hc : isWordChar c = false) (h : s.lexemes? = some done) :
    step s c = start done c := by
  obtain ⟨mode, before⟩ := s
  cases mode with
  | blank =>
    cases h
    rfl
  | word part =>
    cases h
    rw [step_word, hc]
    rfl
  | quoted | regex | escape | bracket | sign => cases h

theorem Lexes.append_closes {c : Char} (h : Lexes cs ts) (hc : isWordChar c = false)
    (h' : Closes (c :: ds) us) : Closes (cs ++ c :: ds) (ts ++ us) := by
  intro done
  obtain ⟨s, hrun, hs⟩ := h done
  have hsame : run s (c :: ds) = run ⟨.blank, done ++ ts⟩ (c :: ds) := by
    rw [run, run, List.foldlM_cons, List.foldlM_cons, step_of_lexemes hc hs]
    rfl
  rw [run_append hrun, hsame, h' (done ++ ts), List.append_assoc]

/-! ## Words -/

theorem start_wordChar {c : Char} (hc : isWordChar c) : start done c = some ⟨.word [c], done⟩ := by
  unfold start
  split
  all_goals first
    | exact absurd hc (by decide)
    | exact if_pos hc

theorem run_word (part : List Char) (h : Wordy cs) :
    run ⟨.word part, done⟩ cs = some ⟨.word (part ++ cs), done⟩ := by
  induction cs generalizing part with
  | nil => simp [run]
  | cons c cs ih =>
    obtain ⟨hc, hcs⟩ := List.forall_mem_cons.mp h
    rw [run_cons ((step_word part done c).trans (if_pos hc)), ih _ hcs, List.append_assoc]
    rfl

theorem lexes_word {w : String} (h : Wordy w.toList) (hne : w ≠ "") : Lexes w.toList [.word w] := by
  intro done
  obtain ⟨c, cs, hw⟩ : ∃ c cs, w.toList = c :: cs := by
    cases hw : w.toList with
    | nil => exact absurd (String.toList_eq_nil_iff.mp hw) hne
    | cons c cs => exact ⟨c, cs, rfl⟩
  rw [hw] at h ⊢
  obtain ⟨hc, hcs⟩ := List.forall_mem_cons.mp h
  refine ⟨⟨.word (c :: cs), done⟩, ?_, ?_⟩
  · rw [run_cons ((step_blank done c).trans (start_wordChar hc)), run_word _ hcs]
    rfl
  · change some (done ++ [.word (String.ofList (c :: cs))]) = _
    rw [← hw, String.ofList_toList]

/-! ## Quoted texts and regular expressions -/

theorem run_quoted (part : List Char) (h : '\'' ∉ cs) :
    run ⟨.quoted part, done⟩ cs = some ⟨.quoted (part ++ cs), done⟩ := by
  induction cs generalizing part with
  | nil => simp [run]
  | cons c cs ih =>
    rw [List.mem_cons, not_or] at h
    rw [run_cons ((step_quoted part done c).trans (if_neg (Ne.symm h.1))), ih _ h.2,
      List.append_assoc]
    rfl

theorem closes_quoted {text : String} (h : '\'' ∉ text.toList) :
    Closes ('\'' :: text.toList ++ ['\'']) [.quoted text] := by
  intro done
  have hopen : step ⟨.blank, done⟩ '\'' = some ⟨.quoted [], done⟩ := rfl
  have hclose : step ⟨.quoted text.toList, done⟩ '\'' = some ⟨.blank, done ++ [.quoted text]⟩ := by
    rw [step_quoted, if_pos rfl, String.ofList_toList]
  rw [List.cons_append, run_cons hopen, run_append (run_quoted [] h), List.nil_append,
    run_cons hclose]
  rfl

theorem run_regex (part : List Char) (hs : '/' ∉ cs) (hb : '\\' ∉ cs) :
    run ⟨.regex part, done⟩ cs = some ⟨.regex (part ++ cs), done⟩ := by
  induction cs generalizing part with
  | nil => simp [run]
  | cons c cs ih =>
    rw [List.mem_cons, not_or] at hs hb
    have hstep : step ⟨.regex part, done⟩ c = some ⟨.regex (part ++ [c]), done⟩ := by
      rw [step_regex, if_neg (Ne.symm hs.1), if_neg (Ne.symm hb.1)]
    rw [run_cons hstep, ih _ hs.2 hb.2, List.append_assoc]
    rfl

theorem closes_regex {body : String} (hs : '/' ∉ body.toList) (hb : '\\' ∉ body.toList) :
    Closes ('/' :: body.toList ++ ['/']) [.regex body] := by
  intro done
  have hopen : step ⟨.blank, done⟩ '/' = some ⟨.regex [], done⟩ := rfl
  have hclose : step ⟨.regex body.toList, done⟩ '/' = some ⟨.blank, done ++ [.regex body]⟩ := by
    rw [step_regex, if_pos rfl, String.ofList_toList]
  rw [List.cons_append, run_cons hopen, run_append (run_regex [] hs hb), List.nil_append,
    run_cons hclose]
  rfl

/-- **The lexemes of a text.** -/
theorem Lexes.read (h : Lexes cs ts) : read cs = some ts := by
  obtain ⟨s, hrun, hs⟩ := h []
  rw [Lexer.read, hrun, Option.bind_some, hs, List.nil_append]

end Lexer

/-! ## Parsing -/

namespace Parser

/-- What stands behind the last operator: nothing yet, a word, a word with a sign, or an
expression. -/
inductive Slot where
  | empty
  | word (name : String)
  | sign (subject : String) (atLeast : Bool)
  | full (e : Expr)
  deriving DecidableEq, Repr

/-- The expression in a slot. -/
def Slot.expr? : Slot → Option Expr
  | .word name => some (.leaf (.word name))
  | .full e => some e
  | .empty | .sign .. => none

/-- What has been read between two parentheses: what stands before the last `|`, what stands behind
it before the last `&`, and what stands behind that. -/
structure Level where
  before : Option Expr := none
  conjuncts : Option Expr := none
  slot : Slot := .empty
  deriving DecidableEq, Repr

/-- An expression behind others that it is combined with. -/
def behind (c : Combination) (e : Expr) : Option Expr → Expr
  | none => e
  | some left => .combine c left e

/-- What has been read since the last `|`. -/
def Level.conjunction? (l : Level) : Option Expr :=
  l.slot.expr?.map fun e => behind .and e l.conjuncts

/-- All that has been read. -/
def Level.expr? (l : Level) : Option Expr := l.conjunction?.map fun e => behind .or e l.before

/-- An innermost level and those around it. -/
structure State where
  level : Level := {}
  outer : List Level := []
  deriving DecidableEq, Repr

/-- The level with an expression in its slot, if this is empty. -/
def State.fill? (s : State) (e : Expr) : Option State :=
  match s.level.slot with
  | .empty => some { s with level.slot := .full e }
  | _ => none

/-- One lexeme. -/
def step (s : State) : Lexeme → Option State
  | .word name =>
    match s.level.slot with
    | .empty => some { s with level.slot := .word name }
    | .sign subject atLeast =>
      some { s with level.slot := .full (.leaf (.bound subject atLeast name)) }
    | _ => none
  | .quoted text => s.fill? (.leaf (.quoted text))
  | .regex body => s.fill? (.leaf (.regex body))
  | .sign atLeast =>
    match s.level.slot with
    | .word name => some { s with level.slot := .sign name atLeast }
    | _ => none
  | .brackets => s.level.slot.expr?.map fun e => { s with level.slot := .full (.list e) }
  | .operator .and =>
    s.level.conjunction?.map fun e => { s with level.conjuncts := some e, level.slot := .empty }
  | .operator .or => s.level.expr?.map fun e => { s with level := { before := some e } }
  | .opening =>
    match s.level.slot with
    | .empty => some { level := {}, outer := s.level :: s.outer }
    | _ => none
  | .closing =>
    match s.outer with
    | [] => none
    | l :: outer => s.level.expr?.map fun e => { level := { l with slot := .full e }, outer }

/-- Lexemes. -/
def run (s : State) (ts : List Lexeme) : Option State := ts.foldlM step s

/-- The expression of lexemes. -/
def read (ts : List Lexeme) : Option Expr := do
  let s ← run {} ts
  if s.outer.isEmpty then s.level.expr? else none

end Parser

/-- The expression of a text. -/
def parse (text : String) : Option Expr := (Lexer.read text.toList).bind Parser.read

/-! ## The grammar -/

/-- What an expression may stand next to: anything, operators other than brackets that bind weaker
than `&`, or those that bind weaker than `|`. -/
inductive Rank where
  | item
  | conjunction
  | disjunction
  deriving DecidableEq, Repr

/-- The rank of what an operator combines. -/
def Combination.rank : Combination → Rank
  | .or => .disjunction
  | .and => .conjunction

/-- The grammar of the type language. -/
inductive Derives : Rank → List Lexeme → Expr → Prop
  | word (name : String) : Derives .item [.word name] (.leaf (.word name))
  | quoted (text : String) : Derives .item [.quoted text] (.leaf (.quoted text))
  | regex (body : String) : Derives .item [.regex body] (.leaf (.regex body))
  | bound (subject : String) (atLeast : Bool) (limit : String) :
    Derives .item [.word subject, .sign atLeast, .word limit]
      (.leaf (.bound subject atLeast limit))
  | list {ts : List Lexeme} {e : Expr} : Derives .item ts e →
    Derives .item (ts ++ [.brackets]) (.list e)
  | group {ts : List Lexeme} {e : Expr} : Derives .disjunction ts e →
    Derives .item (.opening :: ts ++ [.closing]) e
  | combine {ts us : List Lexeme} {e f : Expr} (c : Combination) : Derives c.rank ts e →
    Derives c.rank us f → Derives c.rank (ts ++ .operator c :: us) (.combine c e f)
  | ofItem {ts : List Lexeme} {e : Expr} : Derives .item ts e → Derives .conjunction ts e
  | ofConjunction {ts : List Lexeme} {e : Expr} : Derives .conjunction ts e →
    Derives .disjunction ts e

/-! ## The parser follows the grammar -/

namespace Parser

variable {s s' : State} {ts us : List Lexeme} {e f : Expr}

theorem run_append (h : run s ts = some s') : run s (ts ++ us) = run s' us := by
  rw [run, List.foldlM_append, ← run, h]
  rfl

theorem run_singleton (t : Lexeme) : run s [t] = step s t := by
  rw [run, List.foldlM_cons]
  simp

theorem run_cons {t : Lexeme} (h : step s t = some s') : run s (t :: us) = run s' us := by
  rw [run, List.foldlM_cons, h]
  rfl

theorem behind_equiv {c : Combination} (h : e.Equiv f) (left : Option Expr) :
    (behind c e left).Equiv (behind c f left) := by
  cases left with
  | none => exact h
  | some left => exact .combine c (.refl left) h

theorem behind_combine (c : Combination) (e f : Expr) (left : Option Expr) :
    (behind c f (some (behind c e left))).Equiv (behind c (.combine c e f) left) := by
  cases left with
  | none => exact .refl _
  | some left => exact Expr.equiv_assoc c left e f

/-- What the parser does with lexemes of a rank where nothing stands behind the last operator that
is as weak: they are read as an expression for the same values as a given one. -/
def Reads : Rank → List Lexeme → Expr → Prop
  | .item, ts, e => ∀ s : State, s.level.slot = .empty → ∃ slot e',
    run s ts = some { s with level.slot := slot } ∧ slot.expr? = some e' ∧ e'.Equiv e
  | .conjunction, ts, e => ∀ s : State, s.level.slot = .empty → ∃ l e',
    run s ts = some { s with level := l } ∧ l.before = s.level.before ∧
      l.conjunction? = some e' ∧ e'.Equiv (behind .and e s.level.conjuncts)
  | .disjunction, ts, e => ∀ s : State, s.level.slot = .empty → s.level.conjuncts = none →
    ∃ l e', run s ts = some { s with level := l } ∧
      l.expr? = some e' ∧ e'.Equiv (behind .or e s.level.before)

theorem Reads.list (h : Reads .item ts e) : Reads .item (ts ++ [.brackets]) (.list e) := by
  intro s hs
  obtain ⟨slot, e', hrun, hslot, he⟩ := h s hs
  refine ⟨.full (.list e'), .list e', ?_, rfl, he.list⟩
  rw [run_append hrun, run_singleton, step, hslot]
  rfl

theorem Reads.group (h : Reads .disjunction ts e) :
    Reads .item (.opening :: ts ++ [.closing]) e := by
  intro s hs
  obtain ⟨l, e', hrun, hl, he⟩ := h { level := {}, outer := s.level :: s.outer } rfl rfl
  have hopen : step s .opening = some { level := {}, outer := s.level :: s.outer } := by
    rw [step, hs]
  refine ⟨.full e', e', ?_, rfl, he⟩
  rw [List.cons_append, run_cons hopen, run_append hrun, run_singleton, step, hl]
  rfl

theorem Reads.ofItem (h : Reads .item ts e) : Reads .conjunction ts e := by
  intro s hs
  obtain ⟨slot, e', hrun, hslot, he⟩ := h s hs
  refine ⟨_, _, hrun, rfl, ?_, behind_equiv he _⟩
  rw [Level.conjunction?, hslot]
  rfl

theorem Reads.ofConjunction (h : Reads .conjunction ts e) : Reads .disjunction ts e := by
  intro s hs hnone
  obtain ⟨l, e', hrun, hbefore, hl, he⟩ := h s hs
  rw [hnone] at he
  refine ⟨l, _, hrun, ?_, behind_equiv he _⟩
  rw [Level.expr?, hl, hbefore]
  rfl

theorem Reads.and (h : Reads .conjunction ts e) (h' : Reads .conjunction us f) :
    Reads .conjunction (ts ++ .operator .and :: us) (.combine .and e f) := by
  intro s hs
  obtain ⟨l, e', hrun, hbefore, hl, he⟩ := h s hs
  -- the parser groups to the left, in whatever way the lexemes were derived
  obtain ⟨l', f', hrun', hbefore', hl', hf⟩ :=
    h' { s with level := { l with conjuncts := some e', slot := .empty } } rfl
  have hstep : step { s with level := l } (.operator .and) =
      some { s with level := { l with conjuncts := some e', slot := .empty } } := by
    rw [step, hl]
    rfl
  refine ⟨l', f', ?_, hbefore'.trans hbefore, hl', ?_⟩
  · rw [run_append hrun, run_cons hstep]
    exact hrun'
  · exact (hf.trans (.combine .and he (.refl f))).trans (behind_combine .and e f _)

theorem Reads.or (h : Reads .disjunction ts e) (h' : Reads .disjunction us f) :
    Reads .disjunction (ts ++ .operator .or :: us) (.combine .or e f) := by
  intro s hs hnone
  obtain ⟨l, e', hrun, hl, he⟩ := h s hs hnone
  obtain ⟨l', f', hrun', hl', hf⟩ := h' { s with level := { before := some e' } } rfl rfl
  have hstep : step { s with level := l } (.operator .or) =
      some { s with level := { before := some e' } } := by
    rw [step, hl]
    rfl
  refine ⟨l', f', ?_, hl', ?_⟩
  · rw [run_append hrun, run_cons hstep]
    exact hrun'
  · exact (hf.trans (.combine .or he (.refl f))).trans (behind_combine .or e f _)

/-- **The parser follows the grammar.** -/
theorem reads_of_derives {r : Rank} (h : Derives r ts e) : Reads r ts e := by
  induction h with
  | word name =>
    intro s hs
    exact ⟨.word name, _, by rw [run_singleton, step, hs], rfl, .refl _⟩
  | quoted text =>
    intro s hs
    exact ⟨.full _, _, by rw [run_singleton, step, State.fill?, hs], rfl, .refl _⟩
  | regex body =>
    intro s hs
    exact ⟨.full _, _, by rw [run_singleton, step, State.fill?, hs], rfl, .refl _⟩
  | bound subject atLeast limit =>
    intro s hs
    have hsubject : step s (.word subject) = some { s with level.slot := .word subject } := by
      rw [step, hs]
    have hsign : step { s with level.slot := .word subject } (.sign atLeast) =
        some { s with level.slot := .sign subject atLeast } := rfl
    refine ⟨.full _, _, ?_, rfl, .refl _⟩
    rw [run_cons hsubject, run_cons hsign, run_singleton]
    rfl
  | list _ ih => exact ih.list
  | group _ ih => exact ih.group
  | combine c _ _ ih ih' =>
    cases c with
    | or => exact ih.or ih'
    | and => exact ih.and ih'
  | ofItem _ ih => exact ih.ofItem
  | ofConjunction _ ih => exact ih.ofConjunction

/-- **What the grammar derives** is read as an expression for the same values. -/
theorem read_of_derives (h : Derives .disjunction ts e) : ∃ e', read ts = some e' ∧ e'.Equiv e := by
  obtain ⟨l, e', hrun, hl, he⟩ := reads_of_derives h {} rfl rfl
  refine ⟨e', ?_, he⟩
  rw [read, hrun]
  exact hl

example : parse "(string | 'a|b')[] & number >= -1" = some (.combine .and
    (.list (.combine .or (.leaf (.word "string")) (.leaf (.quoted "a|b"))))
    (.leaf (.bound "number" true "-1"))) := by
  decide

end Parser

end SchemaForge.Dialect.ArkType
