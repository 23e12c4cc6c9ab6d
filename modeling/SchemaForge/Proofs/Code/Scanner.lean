import Mathlib.Tactic.SplitIfs
import SchemaForge.Code.Piece

/-!
# Scanning generated code

A scanner that knows string literals, block comments and brackets, and nothing else of the generated
language.

* `Scanner.step`, `Scanner.scan`: one character, and a text; a bracket that does not match and a line
  end in a literal stop the scanner.
* **`scan_within`**: what is awaited around a text does not matter to its scan.
* `isMark`: the characters that mean something in code.
-/

namespace SchemaForge.Code.Scanner

/-! ## The scanner -/

/-- Where a scanner is: in code, behind a slash in code, in a literal, behind a backslash in one, in
a comment, behind a star in one. -/
inductive Mode where
  | code
  | slash
  | string
  | escape
  | comment
  | star
  deriving DecidableEq, Repr, Inhabited

/-- Whether a scanner is inside a literal or a comment. -/
def Mode.isInside : Mode → Bool
  | .code | .slash => false
  | .string | .escape | .comment | .star => true

/-- Where a scanner is, and the brackets that it awaits, the next one first. -/
structure State where
  mode : Mode := .code
  awaited : List Char := []
  deriving DecidableEq, Repr, Inhabited

/-- The bracket that closes what another one opens. -/
def closer? : Char → Option Char
  | '(' => some ')'
  | '[' => some ']'
  | '\x7b' => some '\x7d'
  | _ => none

/-- Whether a character is a closing bracket. -/
def isCloser (c : Char) : Bool := c == ')' || c == ']' || c == '\x7d'

/-- A character of code. -/
def codeStep (awaited : List Char) (c : Char) : Option State :=
  if c == '"' then some ⟨.string, awaited⟩
  else if c == '/' then some ⟨.slash, awaited⟩
  else
    match closer? c with
    | some d => some ⟨.code, d :: awaited⟩
    | none =>
      if isCloser c then
        match awaited with
        | d :: rest => if c == d then some ⟨.code, rest⟩ else none
        | [] => none
      else some ⟨.code, awaited⟩

/-- One character. -/
def step (s : State) (c : Char) : Option State :=
  match s.mode with
  | .code => codeStep s.awaited c
  | .slash => if c == '*' then some ⟨.comment, s.awaited⟩ else codeStep s.awaited c
  | .string =>
    if c == '"' then some ⟨.code, s.awaited⟩
    else if c == '\\' then some ⟨.escape, s.awaited⟩
    else if c == '\n' || c == '\r' then none
    else some s
  | .escape => some ⟨.string, s.awaited⟩
  | .comment => some ⟨if c == '*' then .star else .comment, s.awaited⟩
  | .star => some ⟨if c == '/' then .code else if c == '*' then .star else .comment, s.awaited⟩

/-- A text. -/
def scan (s : State) (cs : List Char) : Option State := cs.foldlM step s

variable {s t : State} {awaited : List Char} {c : Char} {cs ds : List Char}

@[simp] theorem scan_nil : scan s [] = some s := rfl

@[simp] theorem scan_cons : scan s (c :: cs) = (step s c).bind (scan · cs) := rfl

theorem scan_append : scan s (cs ++ ds) = (scan s cs).bind (scan · ds) := List.foldlM_append

theorem scan_trans (h : scan s cs = some t) : scan s (cs ++ ds) = scan t ds := by
  rw [scan_append, h, Option.bind_some]

/-! ## Brackets around a text -/

/-- The same place with more brackets awaited later. -/
def State.within (s : State) (outer : List Char) : State := ⟨s.mode, s.awaited ++ outer⟩

theorem codeStep_within (outer : List Char) (h : codeStep awaited c = some t) :
    codeStep (awaited ++ outer) c = some (t.within outer) := by
  unfold codeStep at h ⊢
  rcases hc : closer? c with _ | d
  · simp only [hc] at h ⊢
    cases awaited with
    | nil =>
      split_ifs at h ⊢ <;> cases h <;> rfl
    | cons d rest =>
      rw [List.cons_append]
      dsimp only at h ⊢
      split_ifs at h ⊢ <;> cases h <;> rfl
  · simp only [hc] at h ⊢
    split_ifs at h ⊢ <;> cases h <;> rfl

theorem step_within (outer : List Char) (h : step s c = some t) :
    step (s.within outer) c = some (t.within outer) := by
  obtain ⟨mode, awaited⟩ := s
  cases mode with
  | code => exact codeStep_within outer h
  | slash =>
    simp only [step, State.within] at h ⊢
    split at h
    · rename_i hc
      rw [if_pos hc]
      cases h
      rfl
    · rename_i hc
      rw [if_neg hc]
      exact codeStep_within outer h
  | string =>
    simp only [step, State.within] at h ⊢
    split_ifs at h ⊢ <;> cases h <;> rfl
  | escape | comment | star =>
    cases h
    rfl

/-- **What is awaited around a text** does not matter to its scan. -/
theorem scan_within (outer : List Char) : ∀ {cs : List Char} {s : State}, scan s cs = some t →
    scan (s.within outer) cs = some (t.within outer)
  | [], s, h => by
    cases h
    rfl
  | c :: cs, s, h => by
    rw [scan_cons, Option.bind_eq_some_iff] at h
    obtain ⟨u, hu, h⟩ := h
    rw [scan_cons, step_within outer hu, Option.bind_some, scan_within outer h]

/-! ## Characters that mean nothing to the scanner -/

/-- Whether a character means something in code. -/
def isMark (c : Char) : Bool :=
  c == '"' || c == '/' || (closer? c).isSome || isCloser c

theorem codeStep_of_not_mark (h : isMark c = false) :
    codeStep awaited c = some ⟨.code, awaited⟩ := by
  simp only [isMark, Bool.or_eq_false_iff] at h
  obtain ⟨⟨⟨hq, hs⟩, ho⟩, hc⟩ := h
  rw [Option.isSome_eq_false_iff, Option.isNone_iff_eq_none] at ho
  simp [codeStep, hq, hs, ho, hc]

theorem scan_of_not_mark (h : ∀ c ∈ cs, isMark c = false) :
    scan ⟨.code, awaited⟩ cs = some ⟨.code, awaited⟩ := by
  induction cs with
  | nil => rfl
  | cons c cs ih =>
    rw [List.forall_mem_cons] at h
    rw [scan_cons]
    change (codeStep awaited c).bind _ = _
    rw [codeStep_of_not_mark h.1, Option.bind_some, ih h.2]

end SchemaForge.Code.Scanner
