import Mathlib.Tactic.SplitIfs
import SchemaForge.Scalar.Expression

/-!
# The grammar of balanced code

The reader of scalar code knows a stack of open brackets, the quote of the literal that it is in, and
whether the next character is escaped. The texts that it accepts are those of a grammar.

* `IsCode`, `IsPart`, `LiteralBody`: the grammar.
* **`run_code`**: what the grammar generates is read from code to the same place in code.
* `Closes`, `Place.Ends`: the texts that close all that is open at a place.
* **`ends_of_run`**: a text that is read to the end closes all that is open where it starts.
* **`isBalanced_iff_isCode`**: a text is balanced when the grammar generates it.
-/

namespace SchemaForge.Scalar

/-! ## The grammar -/

/-- The characters that open and close a literal. -/
def quotes : List Char := ['\'', '"', '\x60']

/-- The brackets, each with the one that closes it. -/
def brackets : List (Char × Char) := [('(', ')'), ('[', ']'), ('\x7b', '\x7d')]

/-- Characters that are neither quotes nor brackets. -/
def IsPlain (c : Char) : Prop := c ∉ quotes ∧ ∀ b ∈ brackets, c ≠ b.1 ∧ c ≠ b.2

/-- What stands between two quotes: pairs of a backslash and any character, and characters other
than the quote and the backslash. -/
inductive LiteralBody (q : Char) : List Char → Prop
  | nil : LiteralBody q []
  | pair {c : Char} {body : List Char} : LiteralBody q body → LiteralBody q ('\\' :: c :: body)
  | char {c : Char} {body : List Char} : c ≠ q → c ≠ '\\' → LiteralBody q body →
    LiteralBody q (c :: body)

mutual

/-- Code: any sequence of parts. -/
inductive IsCode : List Char → Prop
  | nil : IsCode []
  | cons {part rest : List Char} : IsPart part → IsCode rest → IsCode (part ++ rest)

/-- A part of code: a plain character, a literal, or code in brackets. -/
inductive IsPart : List Char → Prop
  | plain {c : Char} : IsPlain c → IsPart [c]
  | literal {q : Char} {body : List Char} : q ∈ quotes → LiteralBody q body →
    IsPart (q :: (body ++ [q]))
  | group {o d : Char} {inner : List Char} : (o, d) ∈ brackets → IsCode inner →
    IsPart (o :: (inner ++ [d]))

end

/-! ## One character -/

variable {stack : List Char} {c o d q : Char} {cs ds inner body part : List Char} {p t : Place}

theorem isQuote_iff : isQuote c = true ↔ c ∈ quotes := by
  simp [isQuote, quotes, or_assoc]

theorem opener?_eq_some_iff : opener? d = some o ↔ (o, d) ∈ brackets := by
  unfold opener?
  split <;> simp_all [brackets, eq_comm]

theorem isOpening_iff :
    (c == '(' || c == '[' || c == '\x7b') = true ↔ ∃ d, (c, d) ∈ brackets := by
  simp [brackets, or_assoc, exists_or]

/-- What one character of code can do. -/
theorem step_code_cases (h : (⟨stack, none, false⟩ : Place).step c = some t) :
    (c ∈ quotes ∧ t = ⟨stack, some c, false⟩) ∨
      (∃ d, (c, d) ∈ brackets ∧ t = ⟨c :: stack, none, false⟩) ∨
      (∃ o rest, (o, c) ∈ brackets ∧ stack = o :: rest ∧ t = ⟨rest, none, false⟩) ∨
      (IsPlain c ∧ t = ⟨stack, none, false⟩) := by
  simp only [Place.step] at h
  split at h
  · rename_i hq
    cases h
    exact .inl ⟨isQuote_iff.mp hq, rfl⟩
  · rename_i hq
    rw [isQuote_iff] at hq
    split at h
    · rename_i ho
      cases h
      obtain ⟨d, hd⟩ := isOpening_iff.mp ho
      exact .inr (.inl ⟨d, hd, rfl⟩)
    · rename_i ho
      rw [isOpening_iff, not_exists] at ho
      split at h
      · rename_i hc
        cases h
        refine .inr (.inr (.inr ⟨⟨hq, fun b hb => ⟨?_, ?_⟩⟩, rfl⟩))
        · rintro rfl
          exact ho _ hb
        · rintro rfl
          rw [opener?_eq_some_iff.mpr hb] at hc
          cases hc
      · rename_i o hc
        split at h
        · rename_i top rest
          split at h
          · rename_i htop
            cases h
            cases beq_iff_eq.mp htop
            exact .inr (.inr (.inl ⟨_, _, opener?_eq_some_iff.mp hc, rfl, rfl⟩))
          · cases h
        · cases h

theorem step_plain (h : IsPlain c) :
    (⟨stack, none, false⟩ : Place).step c = some ⟨stack, none, false⟩ := by
  have hq : ¬ isQuote c = true := fun hq => h.1 (isQuote_iff.mp hq)
  have ho : ¬ (c == '(' || c == '[' || c == '\x7b') = true := by
    rw [isOpening_iff]
    rintro ⟨d, hd⟩
    exact (h.2 _ hd).1 rfl
  have hc : opener? c = none :=
    Option.eq_none_iff_forall_ne_some.mpr fun o hc => (h.2 _ (opener?_eq_some_iff.mp hc)).2 rfl
  simp only [Place.step, hq, ho, hc, if_false, Bool.false_eq_true]

theorem step_quote (h : c ∈ quotes) :
    (⟨stack, none, false⟩ : Place).step c = some ⟨stack, some c, false⟩ := by
  simp only [Place.step, isQuote_iff.mpr h, if_true]

theorem mem_brackets : (o, d) ∈ brackets ↔
    (o = '(' ∧ d = ')') ∨ (o = '[' ∧ d = ']') ∨ (o = '\x7b' ∧ d = '\x7d') := by
  simp [brackets]

theorem step_opening (h : (o, d) ∈ brackets) :
    (⟨stack, none, false⟩ : Place).step o = some ⟨o :: stack, none, false⟩ := by
  rcases mem_brackets.mp h with ⟨rfl, -⟩ | ⟨rfl, -⟩ | ⟨rfl, -⟩ <;> rfl

theorem step_closing (h : (o, d) ∈ brackets) :
    (⟨o :: stack, none, false⟩ : Place).step d = some ⟨stack, none, false⟩ := by
  rcases mem_brackets.mp h with ⟨rfl, rfl⟩ | ⟨rfl, rfl⟩ | ⟨rfl, rfl⟩ <;> rfl

/-- What one character of a literal can do. -/
theorem step_literal : (⟨stack, some q, false⟩ : Place).step c =
    if c = '\\' then some ⟨stack, some q, true⟩
    else if c = q then some ⟨stack, none, false⟩ else some ⟨stack, some q, false⟩ := by
  simp only [Place.step, beq_iff_eq, Bool.false_eq_true, if_false]

/-! ## From the grammar to the reader -/

theorem run_cons : p.run (c :: cs) = (p.step c).bind (·.run cs) := by
  rw [Place.run]
  cases p.step c <;> rfl

theorem run_append : ∀ {cs : List Char} {p : Place},
    p.run (cs ++ ds) = (p.run cs).bind (·.run ds)
  | [], _ => rfl
  | c :: cs, p => by
    simp only [List.cons_append, run_cons, Option.bind_assoc, run_append]

theorem run_literalBody (h : LiteralBody q body) :
    (⟨stack, some q, false⟩ : Place).run body = some ⟨stack, some q, false⟩ := by
  induction h with
  | nil => rfl
  | pair _ ih =>
    rw [run_cons, step_literal, if_pos rfl, Option.bind_some, run_cons]
    exact ih
  | char hq hb _ ih => rw [run_cons, step_literal, if_neg hb, if_neg hq, Option.bind_some, ih]

theorem ne_backslash (h : q ∈ quotes) : q ≠ '\\' := by
  rintro rfl
  revert h
  decide

mutual

/-- A part of code is read to the place where it starts. -/
theorem run_part : ∀ {part : List Char} {stack : List Char}, IsPart part →
    (⟨stack, none, false⟩ : Place).run part = some ⟨stack, none, false⟩
  | _, stack, .plain h => by rw [run_cons, step_plain h]; rfl
  | _, stack, .literal (q := q) hq h => by
    rw [run_cons, step_quote hq, Option.bind_some, run_append, run_literalBody h, Option.bind_some,
      run_cons, step_literal, if_neg (ne_backslash hq), if_pos rfl]
    rfl
  | _, stack, .group hb h => by
    rw [run_cons, step_opening hb, Option.bind_some, run_append, run_code h, Option.bind_some,
      run_cons, step_closing hb]
    rfl

/-- **What the grammar generates** is read from code to the same place in code. -/
theorem run_code : ∀ {cs : List Char} {stack : List Char}, IsCode cs →
    (⟨stack, none, false⟩ : Place).run cs = some ⟨stack, none, false⟩
  | _, _, .nil => rfl
  | _, _, .cons hp h => by rw [run_append, run_part hp, Option.bind_some, run_code h]

end

/-! ## From the reader to the grammar -/

/-- Texts that close the brackets of a stack: code, and a closing bracket before more of it for each
of them. -/
inductive Closes : List Char → List Char → Prop
  | done {cs : List Char} : IsCode cs → Closes [] cs
  | bracket {o d : Char} {stack inner rest : List Char} : (o, d) ∈ brackets → IsCode inner →
    Closes stack rest → Closes (o :: stack) (inner ++ d :: rest)

theorem Closes.prepend (hp : IsPart part) (h : Closes stack cs) : Closes stack (part ++ cs) := by
  cases h with
  | done h => exact .done (.cons hp h)
  | bracket hb hi h =>
    rw [← List.append_assoc]
    exact .bracket hb (.cons hp hi) h

/-- Texts that close all that is open at a place. In a literal they end it first; a backslash that
has been read belongs to what is left of the literal. -/
def Place.Ends (p : Place) (cs : List Char) : Prop :=
  match p.quote with
  | none => Closes p.stack cs
  | some q => ∃ body rest, cs = body ++ q :: rest ∧ Closes p.stack rest ∧
    LiteralBody q (if p.escaped then '\\' :: body else body)

/-- Places that are escaped in literals only. -/
def Place.Proper (p : Place) : Prop := p.quote = none → p.escaped = false

theorem Place.Proper.step (hp : p.Proper) (h : p.step c = some t) : t.Proper := by
  obtain ⟨stack, quote, escaped⟩ := p
  cases quote with
  | none =>
    cases hp rfl
    rcases step_code_cases h with ⟨-, rfl⟩ | ⟨_, -, rfl⟩ | ⟨_, _, -, -, rfl⟩ | ⟨-, rfl⟩ <;>
      exact fun _ => rfl
  | some q =>
    cases escaped with
    | true =>
      cases h
      exact fun _ => rfl
    | false =>
      rw [step_literal] at h
      split_ifs at h <;> cases h
      · exact nofun
      · exact fun _ => rfl
      · exact fun _ => rfl

/-- One character in front of a text that closes all that is open behind it. -/
theorem Place.Ends.step (hp : p.Proper) (h : p.step c = some t) (ht : t.Ends cs) :
    p.Ends (c :: cs) := by
  obtain ⟨stack, quote, escaped⟩ := p
  cases quote with
  | none =>
    cases hp rfl
    change Closes stack (c :: cs)
    rcases step_code_cases h with ⟨hq, rfl⟩ | ⟨d, hb, rfl⟩ | ⟨o, rest, hb, rfl, rfl⟩ | ⟨hc, rfl⟩
    · -- the literal that begins here is a part of its own
      obtain ⟨body, rest, rfl, hrest, hbody⟩ := ht
      have := hrest.prepend (.literal hq hbody)
      simpa using this
    · -- what closes the new bracket ends a group that begins here
      cases ht with
      | bracket hb' hi hrest =>
        have := hrest.prepend (.group hb' hi)
        simpa using this
    · exact .bracket hb .nil ht
    · exact Closes.prepend (.plain hc) ht
  | some q =>
    cases escaped with
    | true =>
      cases h
      obtain ⟨body, rest, rfl, hrest, hbody⟩ := ht
      exact ⟨c :: body, rest, rfl, hrest, .pair hbody⟩
    | false =>
      rw [step_literal] at h
      split_ifs at h with hb hq <;> cases h
      · obtain ⟨body, rest, rfl, hrest, hbody⟩ := ht
        cases hb
        exact ⟨_, rest, rfl, hrest, hbody⟩
      · exact ⟨[], cs, by rw [hq]; rfl, ht, .nil⟩
      · obtain ⟨body, rest, rfl, hrest, hbody⟩ := ht
        exact ⟨c :: body, rest, rfl, hrest, .char hq hb hbody⟩

/-- **A text that is read to the end** closes all that is open where it starts. -/
theorem ends_of_run (hs : t.stack = []) (hq : t.quote = none) : ∀ {cs : List Char} {p : Place},
    p.Proper → p.run cs = some t → p.Ends cs
  | [], p, _, h => by
    cases h
    rw [Place.Ends, hq, hs]
    exact .done .nil
  | c :: cs, p, hp, h => by
    rw [run_cons, Option.bind_eq_some_iff] at h
    obtain ⟨u, hu, h⟩ := h
    exact .step hp hu (ends_of_run hs hq (hp.step hu) h)

/-! ## Balanced texts -/

theorem isCode_of_isBalanced (h : isBalanced cs = true) : IsCode cs := by
  unfold isBalanced at h
  split at h
  · rename_i t ht
    rw [Bool.and_eq_true, List.isEmpty_iff, Option.isNone_iff_eq_none] at h
    cases ends_of_run h.1 h.2 (fun _ => rfl) ht with
    | done hcs => exact hcs
  · cases h

theorem isBalanced_of_isCode (h : IsCode cs) : isBalanced cs = true := by
  rw [isBalanced, show ({} : Place) = ⟨[], none, false⟩ from rfl, run_code h]
  rfl

/-- **The balanced texts** are those that the grammar generates. -/
theorem isBalanced_iff_isCode (cs : List Char) : isBalanced cs = true ↔ IsCode cs :=
  ⟨isCode_of_isBalanced, isBalanced_of_isCode⟩

end SchemaForge.Scalar
